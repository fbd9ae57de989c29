import RecordServer.Text.Table

/-!
# Scripts

The script of every code point in version 16.0 of the Unicode character database, and the code points which are used
with other scripts than that.
-/

namespace RecordServer.Regexp.Property

/-- The scripts with the names of each. Behind the last one come the code points without a script. -/
def scripts : Text.Partition where
  names :=
    [["Adlm", "Adlam"], ["Ahom"], ["Hluw", "Anatolian_Hieroglyphs"], ["Arab", "Arabic"], ["Armn", "Armenian"],
     ["Avst", "Avestan"], ["Bali", "Balinese"], ["Bamu", "Bamum"], ["Bass", "Bassa_Vah"], ["Batk", "Batak"],
     ["Beng", "Bengali"], ["Bhks", "Bhaiksuki"], ["Bopo", "Bopomofo"], ["Brah", "Brahmi"], ["Brai", "Braille"],
     ["Bugi", "Buginese"], ["Buhd", "Buhid"], ["Cans", "Canadian_Aboriginal"], ["Cari", "Carian"],
     ["Aghb", "Caucasian_Albanian"], ["Cakm", "Chakma"], ["Cham"], ["Cher", "Cherokee"], ["Chrs", "Chorasmian"],
     ["Zyyy", "Common"], ["Copt", "Coptic", "Qaac"], ["Xsux", "Cuneiform"], ["Cprt", "Cypriot"],
     ["Cpmn", "Cypro_Minoan"], ["Cyrl", "Cyrillic"], ["Dsrt", "Deseret"], ["Deva", "Devanagari"],
     ["Diak", "Dives_Akuru"], ["Dogr", "Dogra"], ["Dupl", "Duployan"], ["Egyp", "Egyptian_Hieroglyphs"],
     ["Elba", "Elbasan"], ["Elym", "Elymaic"], ["Ethi", "Ethiopic"], ["Gara", "Garay"], ["Geor", "Georgian"],
     ["Glag", "Glagolitic"], ["Goth", "Gothic"], ["Gran", "Grantha"], ["Grek", "Greek"], ["Gujr", "Gujarati"],
     ["Gong", "Gunjala_Gondi"], ["Guru", "Gurmukhi"], ["Gukh", "Gurung_Khema"], ["Hani", "Han"],
     ["Hang", "Hangul"], ["Rohg", "Hanifi_Rohingya"], ["Hano", "Hanunoo"], ["Hatr", "Hatran"], ["Hebr", "Hebrew"],
     ["Hira", "Hiragana"], ["Armi", "Imperial_Aramaic"], ["Zinh", "Inherited", "Qaai"],
     ["Phli", "Inscriptional_Pahlavi"], ["Prti", "Inscriptional_Parthian"], ["Java", "Javanese"],
     ["Kthi", "Kaithi"], ["Knda", "Kannada"], ["Kana", "Katakana"], ["Kawi"], ["Kali", "Kayah_Li"],
     ["Khar", "Kharoshthi"], ["Kits", "Khitan_Small_Script"], ["Khmr", "Khmer"], ["Khoj", "Khojki"],
     ["Sind", "Khudawadi"], ["Krai", "Kirat_Rai"], ["Laoo", "Lao"], ["Latn", "Latin"], ["Lepc", "Lepcha"],
     ["Limb", "Limbu"], ["Lina", "Linear_A"], ["Linb", "Linear_B"], ["Lisu"], ["Lyci", "Lycian"],
     ["Lydi", "Lydian"], ["Mahj", "Mahajani"], ["Maka", "Makasar"], ["Mlym", "Malayalam"], ["Mand", "Mandaic"],
     ["Mani", "Manichaean"], ["Marc", "Marchen"], ["Gonm", "Masaram_Gondi"], ["Medf", "Medefaidrin"],
     ["Mtei", "Meetei_Mayek"], ["Mend", "Mende_Kikakui"], ["Merc", "Meroitic_Cursive"],
     ["Mero", "Meroitic_Hieroglyphs"], ["Plrd", "Miao"], ["Modi"], ["Mong", "Mongolian"], ["Mroo", "Mro"],
     ["Mult", "Multani"], ["Mymr", "Myanmar"], ["Nbat", "Nabataean"], ["Nagm", "Nag_Mundari"],
     ["Nand", "Nandinagari"], ["Talu", "New_Tai_Lue"], ["Newa"], ["Nkoo", "Nko"], ["Nshu", "Nushu"],
     ["Hmnp", "Nyiakeng_Puachue_Hmong"], ["Ogam", "Ogham"], ["Olck", "Ol_Chiki"], ["Onao", "Ol_Onal"],
     ["Hung", "Old_Hungarian"], ["Ital", "Old_Italic"], ["Narb", "Old_North_Arabian"], ["Perm", "Old_Permic"],
     ["Xpeo", "Old_Persian"], ["Sogo", "Old_Sogdian"], ["Sarb", "Old_South_Arabian"], ["Orkh", "Old_Turkic"],
     ["Ougr", "Old_Uyghur"], ["Orya", "Oriya"], ["Osge", "Osage"], ["Osma", "Osmanya"], ["Hmng", "Pahawh_Hmong"],
     ["Palm", "Palmyrene"], ["Pauc", "Pau_Cin_Hau"], ["Phag", "Phags_Pa"], ["Phnx", "Phoenician"],
     ["Phlp", "Psalter_Pahlavi"], ["Rjng", "Rejang"], ["Runr", "Runic"], ["Samr", "Samaritan"],
     ["Saur", "Saurashtra"], ["Shrd", "Sharada"], ["Shaw", "Shavian"], ["Sidd", "Siddham"],
     ["Sgnw", "SignWriting"], ["Sinh", "Sinhala"], ["Sogd", "Sogdian"], ["Sora", "Sora_Sompeng"],
     ["Soyo", "Soyombo"], ["Sund", "Sundanese"], ["Sunu", "Sunuwar"], ["Sylo", "Syloti_Nagri"], ["Syrc", "Syriac"],
     ["Tglg", "Tagalog"], ["Tagb", "Tagbanwa"], ["Tale", "Tai_Le"], ["Lana", "Tai_Tham"], ["Tavt", "Tai_Viet"],
     ["Takr", "Takri"], ["Taml", "Tamil"], ["Tnsa", "Tangsa"], ["Tang", "Tangut"], ["Telu", "Telugu"],
     ["Thaa", "Thaana"], ["Thai"], ["Tibt", "Tibetan"], ["Tfng", "Tifinagh"], ["Tirh", "Tirhuta"],
     ["Todr", "Todhri"], ["Toto"], ["Tutg", "Tulu_Tigalari"], ["Ugar", "Ugaritic"], ["Vaii", "Vai"],
     ["Vith", "Vithkuqi"], ["Wcho", "Wancho"], ["Wara", "Warang_Citi"], ["Yezi", "Yezidi"], ["Yiii", "Yi"],
     ["Zanb", "Zanabazar_Square"]]
  source :=
    ["ox2xbpo5xbpowfxb0oexb0o4xbmo0xbuo0xbJeow7xb4o4c1ojwqyiwd3o0wd2Af1wd3o0wd0Af3wd0o0wd0o0wd2Af0wd0Af0wdjAf0wdx0",
     "pdwdftz8wq1tAdAf04w6Af14wiAf142Af0wnwnAf7wnqAf3wn5Afa34o035o03do032o03w0o039wqa3pwq03yeo03w2zjdAf0zjwsAf1zj2",
     "3wgzuwiAfdybwrAf1yb2z6weAf1z6eAf0xmrAf1xm0Af0zjaAf43uAf031Af43xco03sw0xiwq3w0eo1w0pa3Af0a7Af1a1Af1alAf0a6Af0",
     "a0Af2a3Af1a8Af1a1Af1a3Af7a0Af3a1Af0a4Af1aoAf1wg2Af0wg5Af3wg1Af1wglAf0wg6Af0wg1Af0wg1Af0wg1Af1wg0Af0wg4Af3wg1",
     "Af1wg2Af2wg0Af6wg3Af0wg0Af6wggAf9we2Af0we8Af0we2Af0welAf0we6Af0we1Af0we4Af1we9Af0we2Af0we2Af1we0Afewe3Af1web",
     "Af6we6Af0yq2Af0yq7Af1yq1Af1yqlAf0yq6Af0yq1Af0yq4Af1yq8Af1yq1Af1yq2Af6yq2Af3yq1Af0yq4Af1yqhAf9zq1Af0zq5Af2zq2",
     "Af0zq3Af2zq1Af0zq0Af0zq1Af2zq1Af2zq2Af2zqbAf3zq4Af2zq2Af0zq3Af1zq0Af5zq0AfdzqkAf4ztcAf0zt2Af0ztmAf0ztfAf1zt8",
     "Af0zt2Af0zt3Af6zt1Af0zt2Af1zt0Af1zt3Af1zt9Af6zt8x0cAf0x02Af0x0mAf0x09Af0x04Af1x08Af0x02Af0x03Af6x01Af5x01Af0",
     "x03Af1x09Af0x02AfbxlcAf0xl2Af0xlwjAf0xl2Af0xl5Af3xlfAf1xlpAf0zc2Af0zchAf2zcnAf0zc8Af0zc0Af1zc6Af2zc0Af3zc5Af",
     "0zc0Af0zc7Af5zc9Af1zc2AfbA0wqAf3o0A0rAfw5xa1Af0xa0Af0xa4Af0xanAf0xa0Af0xamAf1xa4Af0xa0Af0xa6Af0xa9Af1xa3Afw0",
     "A1x9Af0A1w4Af3A1w7Af0A1w4Af0A1eAf0A16o3A11Afw5y5A4w9w6Af0w90Af4w90Af1w9wbo0w93wjD7w7xaAf0w73Af1w76Af0w70Af0w",
     "73Af1w7w9Af0w73Af1w7w1Af0w73Af1w76Af0w70Af0w73Af1w7eAf0w7wpAf0w73Af1w7x4Af1w7w0Af2w7pAf5mxnAf1m5Af1hPjyesAf2",
     "z5xco2z5aAf6zklAf8zk0wlko1Af8gjAfbzlcAf0zl2Af0zl1Afbx6y0Af1x69Af5x69Af5y21o1y20o0y2jAf5y2xqAf6y2wbAf4hx7Af9x",
     "duAf0xdbAf3xdbAf3xd0Af2xdbzmtAf1zm4Afay9wcAf3y9pAf5y9aAf2y91x6w0frAf1f1znx0Af0znsAf1znaAf5zn9Af5zndAf1wquAfw",
     "h6xeAf06wizgx19wkAf793xcwoAf2xceAf2xc2yfwgtaAf4w9wbAf1w92zg7Af7wq2o0wqco0wq6o3wq0o5wq0o2wq1o0Af4xbw6wd4t0xbw",
     "hwd4xb3wd4xbct0xbx7wd0wqx1xbD7wdlAf1wd5Af1wdw6Af1wd5Af1wd7Af0wd0Af0wd0Af0wd0Af0wduAf1wdwlAf0wdeAf0wddAf1wd5A",
     "f0wdiAf1wd2Af0wd8Af0obwq1oxoAf0oaxb0Af1oaxb0oeAf0xbcAf2ow1Afewqw1Afeow6wd0o2xb1o5xb0oqxb0ogxbw9o2Af3oQeAfloa",
     "AfkoYseD7oP7Af1ow0Af0oybway2xbw0pymAf4p6w9w6Af0w90Af4w90Af1A2woAf6A21AfdA20w7mAf8w76Af0w76Af0w76Af0w76Af0w76",
     "Af0w76Af0w76Af0w76Af0tw0oy0Afw2wipAf0wixqAfbwiBrAfpokwi0o0wi0oowi8wq3wj1o7wi3o3Af0woxnAf1wq1o1wo2o0x1xro1x12",
     "Af4cwbAf0wjy0Af0ofcw0ow6Af8o0x1fwjuAf0ox1wjuoxix1wfo0x1xpoAcwiBVjox1wiQV4AdwBhAf2AdwnAf8xgwgA8EkAfjty27xpAf7",
     "ow2xby8o2xbx4Af1xb1Af0xb0Af0xb7AfkxbdziwdAf2o9Af5z1woAf7z7x7Af7z7bAf5w0w0x3weo0x30z4w4Afaz40wjsAf2wtxfAf0o0w",
     "t9Af3wt1y5uAf0lwnAf8ldAf1l9Af1l3y5w0zox4Afnzo4xrmAf9w75Af1w75Af1w75Af8w76Af0w76Af0xbwbo0xb8wd0xb3o1Af3mxhxrw",
     "eAf1xr9Af5wjGObAfbwjmAf3wjwhAfDTjwiGoAf1wiycAfw6xb6Afb44Af4wnpAf0wn4Af0wn0Af0wn1Af0wn1Af0wn93ylAff3Glo13xhAf",
     "13wmAf630Afw03fwqfo9Af5wqdt1ow3Af0oiAf0o3Af334Af03zaAf1o0Af0ow0xbpo5xbpoax19o0x1wdo1wjuAf2wj5Af1wj5Af1wj5Af1",
     "wj2Af2o6Af0o6Af9o4Af1xfbAf0xfpAf0xfiAf0xf1Af0xfeAf1xfdAfw2xfytAf4o2Af3owdAf2o8wdxgAf0ocAf2wd0Afwfowdwq0Afz5x",
     "hsAf2iwhAfewq0oqAf3yiw4Af8yi2wbqAf4ykwbAf4A7tAf0A70ylw4Af3yldAfwauxhz9wgystAf1ys9Af5yrw4Af3yrw4Af3w5w8Af7jwk",
     "Afaj0A9aAf0A9eAf0A96Af0A91Af0A9aAf0A9eAf0A96Af0A91Af2A4wkAfbxeF0Af8xelAf9xe7Afnxb5Af0xbwaAf0xb8Afx6r5Af1r0Af",
     "0rwcAf0r1Af2r0Af1r0wplAf0wp8yuw0y6uAf7y68AfwgwmiAf0wm1Af4wm4z2rAf2z20xipAf4xi0Afx1xuw0xtnAf3xtjAf1xtwex43Af0",
     "x41Af4x47Af0x42Af0x4sAf1x42Af3x49Af6x48Af6ynw0yjw0Afw0xnw7Af3xnbAf85wmAf256wslAf1ws7wriAf4wr7z3hAf6z33Afbz36",
     "AfxhyoxaAfwnyhwjAfcyhwjAf6yh5wkw8Af7wk9Af5w8w6Af2w8sAf7w81AfBl3uAf0AcwaAf0Ac2Af1Ac1Aff32Afwn33ymw8Af7zdwaAfl",
     "yppAfw6nrAfjw6mAf8dxfAf3dw4Af8d0wux4Af9wu0Af1zeoAf6ze9Af5kwlAf0khAf7xjw7Af8z8y2Af0zcjAfax7hAf0x7wfAfwuy46Af0",
     "y40Af0y43Af0y4eAf0y4aAf5x8wrAf4x89Af5wc3Af0wc7Af1wc1Af1wclAf0wc6Af0wc1Af0wc4Af0wq0wc8Af1wc1Af1wc2Af1wc0Af5wc",
     "0Af4wc6Af1wc6Af2wc4AfaA69Af0A60Af1A60Af0A6w6Af0A69Af0A60Af1A60Af0A63Af0A69Af0A61Af7A61AfsyaxtAf0ya4AftA3x9Af",
     "7A39AfAazawmAf1zaw6Afw2y1x6Afay19Af5y2cAfizpwqAf5zp9Af5y5jAfr1qAf11eAf31mAfAtw2wsAfy6AbxkAfbAb0w16Af1w10Af1w",
     "17Af0w11Af0w1tAf0w11Af1w1bAf8w19Afx7y87Af1y8weAf1y8aAfqAex9Af7zfxkAfchfz0wpAf6w09AfAqzhw2Afdzh9Af5b8Af0bwdAf",
     "0bdAf9bsAf2xow0Af1xolAf0xodAfxaxp6Af0xp1Af0xpwcAf2xp0Af0xp1Af0xp8Af7xp9Af5wf5Af0wf1Af0wfw5Af0wf1Af0wf5Af6wf9",
     "AfEuxkoAf6x2gAf0x2w9Af2x2sAfxmxg0AfezqwiAfczq0qYmAfy8qyhAf0q4AfaqB9AfxS0sy5Afcw4wzoAf9w4zzqAf42NoAfCykwhwqAf",
     "wTs7NaAf6y3uAf0y39Af3y31zrxgAf0zr9Af58tAf185Af9ytx7Af9yt9Af0yt6Af0ytkAf4ytiAfIsx9wqAfBbxqxsAfy7y0xcAf3y0wpAf",
     "6y0gAfx1zs0yc0wi1x50Afawi1AfdzsBGsAf7zsTnx5K4Afw9x50zs8AfEE6x13Af0x16Af0x11Af0x10woE7x12Afewo0Afswo2Af1x10Af",
     "dx13Af7ycHnAfxHdw3ydAf4w3cAf2w38Af6w39Af1w33o3AfzxpoD1Af5oJ1AfxdwqweAf1wqmAf8oymAfwsoCsAf9ow7Af1owuwq2ogwq7o",
     "1wq6otwq3owtAfkwdx7AfysojAfbojAfboxoAf8ooAfzaoxmAf0ox8Af0o1Af1o0Af1o1Af1o3Af0obAf0o0Af0o6Af0ox2Af0o3Af1o7Af0",
     "o6Af0orAf0o3Af0o4Af0o0Af2o6Af0oFtAf1oEcAf1owizbQ0Afezb4Af0zbeAfwzixbuAf5xb5AfBqwa6Af0wagAf1wa6Af0wa1Af0wa4Af",
     "4twuAfw1t0AfyiydwdAf2yddAf1yd9Af3yd1AfF9A5uAfgAawqAf4Aa0AfJty7waAfBrygwbAf3yg0AfKew76Af0w73Af0w71Af0w7eAf0xs",
     "BaAf1xsfAfw90xdAf309Af301AfU9ox5AfxdowtAfB733Af03qAf031Af030Af130Af039Af033Af030Af030Af530Af330Af030Af030Af0",
     "32Af031Af030Af130Af030Af030Af030Af030Af031Af030Af133Af036Af033Af033Af030Af039Af03gAf432Af034Af03gAfwk31AfDlo",
     "wcAf3oy6AfboeAf1oeAf0oeAf0ow5Af9oAiAfwoopwo0o1AfcowcAf3o8Af6o1Afdo5AfztowvmAf3ogAf2ocAf2oypAf3oy1Af5obAf3o0A",
     "feobAf3owoAf7o9Af5ow8Af7otAf1obAf3o1AfwuoFtAfbodAf1ocAf2o9Af4owoAf6oeAf1oaAf5o8Af6ozmAf0oy8Afwx6wiwIJ1Afw0wi",
     "zEuAf5wiC4Af1wiAZqAfdwiCT1AfewiP1AfxMgwiMeAfwMhwiAz9Af4wizG6AfSWP0o0Aftoy2Afz3wqCmAfBNx5"]

/-- The code points which are used with other scripts than their own: the gap before each run of them, its length less
one, the number of the scripts, and the places of these in the list of all. -/
def scriptExtensions : List String :=
  ["As0g5ipw3w5w9wawfwbwdwixbxixjykz9Lk07atw0xbxgA0A5a02cxb122cxb102xbxg902xbA0102cxbw708mptwdxbykzmzh008mtwdxbyrz",
   "mzhA4004mtxbA2005waxbzjA0zh00bjmptwbwdxbyrzjA2A4006pw5wawbx1xb005twdxbykA2009pw3wnxbykzjzmA2A400b4tw3wbwdwnxby",
   "kzjzmA2002xbA2003w3xbzj004mtxbyr003mxbzm002xbzh002w7xb102xbzh003txbA4104wdxbykA4f06mw3x1xbzjA2004mw3xbzj002xbz",
   "j703xbzjzh002xbzj103mxbzj007jmwbxbzjA0zhg01wd201wdi02xbyr503jxbA44c1xb412pwdDl02tyk002twa012txb002twaD9034w9wa",
   "z6073ybwkzjzuAcw8e073ybwkzjzuAcw80033zjzu20803ybwkzjzuAcw8w10903xmxnypz3wkzdzjaa23zja933zuAc6023zjy6023wkPg0fa",
   "w0wcwewgx0xbxly8yayqz8zqztA300daw0wcwewgx0xbxlyayqzqztA3h0law0w2wfxpwcwewgx0xjxly8yqx8zczizpzqztA3yg00naw0w2wf",
   "xpwcwewgx0xdxjxly8yqx8zczizpzqztA3whyg094w0w2wuxjyp93akziyp92wgy4yp92wex7Ctd2wczqCp93x0y8A6Wb93ky5zmAm03w9waxb",
   "wN021z5x914gwlzlzkBh12y2z1102y2z1wDh04aw0wcx0001w0004aw0wcx0003w0wcx0001w0005aw0yaztA3003aw0zt003w0yaz8004aw0y",
   "azt002w0z8006w0x0xlyqzqzt001w0012w0z8011w0002w0z8002aw0003w0yaA3051w0003w0y8ya003aw0z8002w0ya001w0004aw0yaz803",
   "1w000baw0wcx0xly8yqzcztA3A6002w0wc004w0wcx0A6012aw0001a012w0wc001y8Bb11wdwn03txbzj101zjN603xby2z1w00203a06iw9w",
   "ayhxhyo204iwdyhxuzm03w0wcxbyKi02pxbo025yo0075iw9yhwuxiz6a01w340303yh102twaIpf2wizs107cwjwiwox1y2Ad008cwjwiwox1",
   "y2z1Ad005cwjwiwox1201wi118cwjwiwox1y2A1Ad019cwjwiwox1xgy2A1Ad056cwjwiwox1Ad105cwjwiwox1076cwjwiwox1Ad035cwjwiw",
   "ox1a32cwi205cwjwiwox1042wox1105cwjwiwox1413wiwox1011wixr32wox1302wox1xs06cwjwiwox1Ad002wox1znf1wiw1w61wi902wiz",
   "swhw81wiwpwh1wifb1wiwk01wixqo1wia41wiy3u1wiZK102twazk72wixbEh2gw0w2wewgx7x0wuxjxly1y8z8x8zpA3A602fw0w2wewgx7x0",
   "wuxjy1y8z8x8zpA3A601bw0w2wewgx7wuxjy1x8zpA300cw0w2wewgx7wuxjy1z8x8zpA300bw0w2wewgx7wuxjy1x8zpA3As03aw0A6102w0z",
   "qwr03x3xby5A502fwtRBu123ybAn023zua023zux915cwjwiwox1E346cwjwiwox1Ada02wox1we12wox1Gb13srxf002rxf4wd3rxexf382rx",
   "fIdr23pxyn02xnypxzg02wczq102wczqwo12wczqyFq12wczq102wczqwFSq31w3Bwnh1wiDBs11wi"]

end RecordServer.Regexp.Property
