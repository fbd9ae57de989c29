import RecordServer.Text.Table

/-!
# Binary properties

The code points of those binary properties of version 16.0 of the Unicode character database that are not derived from
other ones.
-/

namespace RecordServer.Regexp.Property

/-- The properties: the names of each and its code points. -/
def binaries : List (List String × List String) :=
  [(["AHex", "ASCII_Hex_Digit"],
   ["wh975q5"]),
   (["Bidi_C", "Bidi_Control"],
   ["wOe0BX71q4wo3"]),
   (["CWCF", "Changes_When_Casefolded"],
    ["x3pxs0am17w1010101010101010101010101010101010101010101010101010101020101010101010101110101010101010101010101",
     "010101010101010101010111010101110111223111231111010111020111210113071111110101010101010102010101010101010102",
     "1101210101010101010101010101010101010101010101010101010101010107111201310101010Ct0wb0103080601210111g18m0c23",
     "1101010101010101010101010112110112wjwh0101010101010101010101010101010109010101010101010101010101010101010101",
     "010101010101010101110101010101020101010101010101010101010101010101010101010101010101010101010101010101010101",
     "01010101010101010102w6wh0xYjw61050V45xD896wb22Fa010101010101010101010101010101010101010101010101010101010101",
     "010101010101010101010101010101010101010101010101010101010101010101010101010101010101010105120101010101010101",
     "0101010101010101010101010101010101010101010101010101010101010101010101010101010109785a78785b010101087gwg2225",
     "5225b3c45225Ei03160wefj0VcpwXbwgwh01220101013102082101010101010101010101010101010101010101010101010101010101",
     "01010101010101010101010101010101010101010801040wwEm010101010101010101010101010101010101010101010j01010101010",
     "1010101010101010zb010101010101030101010101010101010101010101010101010101010101010101010101010a01011101010104",
     "0102010301010101010101010101414101010101010101310113050101010o0XmxhQye6c4wxapwDcw8zcw4A1a1e1611wV3wjA2lxZmw0",
     "RT2w0wwPkw2"]),
   (["CWCM", "Changes_When_Casemapped"],
    ["x3p6pwr0am1u1x11xl1r2d21104xu1h6q1110113113142011207020113550a1Ab0wb32132106012101j1wf3w1141z88Aa1w6aw7xYjw6",
     "10502wb22Qlxn25xD8a5wb22Au030g0ykA0201yo252w625271010101u2wl1610321633254c5216Ei03160r0hw031VbwkwWgyj11117y8",
     "7331cw61050wwCpweirzad2wu9e32241o1t2146o1Wn0sxhQye6c4wxap6pwCbxhy3w44w4yna1e16111a1e1611wTqwjdwjy0lalxYlx1RS",
     "1x1wwOjx5"]),
   (["CWL", "Changes_When_Lowercased"],
    ["x3py8m16w201010101010101010101010101010101010101010101010101010102010101010101010201010101010101010101010101",
     "010101010101010101011101031101112231112311110101110201112101130711111101010101010101020101010101010101021101",
     "210101010101010101010101010101010101010101010101010101010107111201310101010Ea0103080601210111g18w40801010101",
     "0101010101010105020112wjwh0101010101010101010101010101010109010101010101010101010101010101010101010101010101",
     "010101110101010101020101010101010101010101010101010101010101010101010101010101010101010101010101010101010101",
     "01010102w6yv6w61050S9xnxDp06wb22Fa01010101010101010101010101010101010101010101010101010101010101010101010101",
     "010101010101010101010101010101010101010101010101010101010101010101010101010901010101010101010101010101010101",
     "010101010101010101010101010101010101010101010101010101010101010109785a78785b010101087o7878784b4b3c4b4Ei03160",
     "wefj0VcpwXbwgwh012201010131020821010101010101010101010101010101010101010101010101010101010101010101010101010",
     "1010101010101010101010801040wwEm010101010101010101010101010101010101010101010j010101010101010101010101010zb0",
     "10101010101030101010101010101010101010101010101010101010101010101010101010a010111010101040102010301010101010",
     "101010101414101010101010101310113050101010o0SBqpwDcw8zcw4A1a1e1611wV3wjA2lxZmw0RT2w0wwPkw2"]),
   (["CWT", "Changes_When_Titlecased"],
    ["y4pwr0wan171010101010101010101010101010101010101010101010101010101020101010101010111010101010101010101010101",
     "010101010101010101010201012201020305020322020101020402030102030104011111010101010101010111010101010101010121",
     "010301010101010101010101010101010101010101030101010101010101080211040101010151110113113142011207020113550a1A",
     "b0wc0103032i0rw31132101010101010101010101014102020wlwg101010101010101010101010101010101090101010101010101010",
     "101010101010101010101010101010101020101010101011101010101010101010101010101010101010101010101010101010101010",
     "101010101010101010101010101010101010wiw7yV75xD8810Cl030g0yl0101010101010101010101010101010101010101010101010",
     "101010101010101010101010101010101010101010101010101010101010101010101010101010101010101010101010101650101010",
     "101010101010101010101010101010101010101010101010101010101010101010101010101010101010101885a78785a7878d278787",
     "8411603211832187a211G10w2f40W6pwY2wg10311010106020a010101010101010101010101010101010101010101010101010101010",
     "101010101010101010101010101010101010101010801040cw61050wwCq010101010101010101010101010101010101010101010j010",
     "101010101010101010101010zb010101010101030101010101010101010101010101010101010101010101010101010101010a010201",
     "010101040401120101010101010101010b01010101010101040102030501010q0Wn0sxhQye6c4wybpwDkw8zcw4A0a1e1611wVswjz1lx",
     "Zmw0RT2w0wwPmw2"]),
   (["CWU", "Changes_When_Uppercased"],
    ["y4pwr0wan171010101010101010101010101010101010101010101010101010101020101010101010111010101010101010101010101",
     "010101010101010101010201012201020305020322020101020402030102030105111111010101010101011101010101010101011111",
     "0301010101010101010101010101010101010101030101010101010101080211040101010151110113113142011207020113550a1Ab0",
     "wc0103032i0rw31132101010101010101010101014102020wlwg10101010101010101010101010101010109010101010101010101010",
     "101010101010101010101010101010102010101010101110101010101010101010101010101010101010101010101010101010101010",
     "1010101010101010101010101010101010wiw7yv5wb22Tg5xD8810Cl030g0yl010101010101010101010101010101010101010101010",
     "101010101010101010101010101010101010101010101010101010101010101010101010101010101010101010101010101010165010",
     "1010101010101010101010101010101010101010101010101010101010101010101010101010101010101010101885a78785a7878d2w",
     "l114010321140332187a21140Fr0w2f40W6pwY2wg10311010106020a0101010101010101010101010101010101010101010101010101",
     "01010101010101010101010101010101010101010101010801040cw61050wwCq01010101010101010101010101010101010101010101",
     "0j010101010101010101010101010zb010101010101030101010101010101010101010101010101010101010101010101010101010a0",
     "10201010101040401120101010101010101010b01010101010101040102030501010q0Wn0sxhQye6c4wybpwDkw8zcw4A0a1e1611wVsw",
     "jz1lxZmw0RT2w0wwPmw2"]),
   (["Dash"],
   ["we0wI80wk0yTm0wx60xzb5wu0w80f0Hi0yB7020w0140s0Jc0j0yi0wSSh1w60a0Ae0yUm0F80"]),
   (["DI", "Default_Ignorable_Code_Point"],
   ["Ai0Qm0S30xZu1wQ71xn4xys4q4wifzL00wSKkfCm0A50xh8wOCs3ALq7VTRtzD3"]),
   (["Dep", "Deprecated"],
   ["Fj0wGj0xHd010xAc1xFd5Rf1ZKGg0"]),
   (["Dia", "Diacritic"],
    ["y1010x90604021L7A31755h14091D54Bn0wowd10111110z7741za14132x5qxtawraw31z27wa9grwu0g033s0xc0g0yh0g0yh0g0wg2wt0",
     "g070yq0yh0g0yh0g0yg1g0z00yi0c510ye0d4xd1r0101041x4211x00yj011w9144p610a1Rn2Zi1u0zoa90G62Ed0k720whe2ayb0f0w78",
     "wn1wr0b1x41x25xko406022wjx0whw45bw6aJb012b2d2d2d1yIq2F70La5yc3y20wvDr0c110s1xk1ew2y92yg1c0w60zr0rhwq3w50y20c",
     "0w50zp2x33wk0y7492z41Qxt0TpfDm010wg0we1x50Tk0wC551wa18Ph240Aa1Nd5w70q4Hr2x8awi3B60wa0xa1yr1x00xe092yb1An1xi1",
     "g0o634xr211d1y2030yu1D31z20yp1ym0Dl1Da140A10xl0i0xj0Ii0Da011xj0Im1n0AMoeGYb0xNg4ws6N61Mjgxi1Mwe31611DD1we2mM",
     "h2358726u3yVpwuB86H30wu3Tm1Sn6yg212"]),
   (["Emoji"],
    ["w406059yi040DHh0c0Bu0m0xs5f1Gq1c0Ab0pa42Bd0Ce1a090wr314902021204020112030318250105bb1201110i021i510113150214",
     "1b15120511011k155132040202510201010603060a1f02040104210b1wh290e0e0H01Jt2j1wk040wE20c0Oc010yUP80Bg0A51c1e029x",
     "dp11n0k028l1Ajw22yi21122xk221De1x0b51n7127c0232041d120819052c28220104060306xnwhx757224930113029Cab40E4wf191A",
     "tyjc395wo7e2a68"]),
   (["EComp", "Emoji_Component"],
   ["w406059DJp0Br0wWXd0xxYjpLb4wKu3VJwpy2"]),
   (["EMod", "Emoji_Modifier"],
   ["zEAr4"]),
   (["EBase", "Emoji_Modifier_Base"],
   ["Fzn0C20g3yYPh0wt22022yo12ali3042127010o0Bf140l041Aj234xl0g290b0Nh02087609922wp0wu11110h21cCc2wb8"]),
   (["EPres", "Emoji_Presentation"],
    ["EFr1Bj33020Lp1l1wjbwc0j0d081h1518050l0711040207041s0w40104210wu2o0e0Wm1wk040yWN80Bg0B4029xdp10o0k02412l1Ajw1",
     "c81x71lcwb44cg303x8101B02x0d31ni0q1d0xoxmwhx760322243b178Cab40E4wf191Atyjc395wo7e2a68"]),
   (["ExtPict", "Extended_Pictographic"],
    ["Ae040DHh0c0Bu0m0xs5f1Gq1c0y20x80pa42Bd0Ce1a090wr3151b1ykayo2a1010603060a1f02040104210b4we290e0e0H01Jt2j1wk04",
     "0wE20c0Oc010yUP4D7d2w00wt5c1e029iwprea0k028139Iu5F78Dhwhz3ynbxnwbc3wp7a5w97uxjcwf191J6D8wwt"]),
   (["Ext", "Extender"],
    ["As0M91Xa0J70Pa0zd0xr0T80z30xJf0wp0Om0Hq0x60ABa0wc4ya1y02YNb0wN70wv10m0zd0yf0l1RKk0xzi1wLq0r040wDe0Ee0yn1L22w",
     "Dm0QK31wC2110ZB01wCn0Wf2"]),
   (["Gr_Link", "Grapheme_Link"],
    ["xJp0z30z30z30z30z30z30z30yg1g0z00yi0z30Bf0Ap1wUh1u0A20Q20Ca0y81x81zPr0wwOp0w60zr0zi0yf0Eu0Ct0Uyr0wNn0wa0e0wq",
     "0ys1zf0yn0Ap0y50z42yk0z30D40z30yp0yn0Dl0Db1A60xl0i0xj0Ii0Dc1xj0Im1MMc0"]),
   (["Hex", "Hex_Digit"],
   ["wh975q5xAV0975q5"]),
   (["Hyphen"],
   ["we0z30wE40zXj0xzb1yRo0Sq0wSR70Ae0xp0"]),
   (["IDSB", "IDS_Binary_Operator"],
   ["HSr129L10"]),
   (["IDST", "IDS_Trinary_Operator"],
   ["HSt1"]),
   (["IDSU", "IDS_Unary_Operator"],
   ["HTa1"]),
   (["ID_Compat_Math_Continue"],
   ["An150DIr03a1eGu040m0ySEn0p0w00p0w00p0w00p0w00p0"]),
   (["ID_Compat_Math_Start"],
   ["Ewq040m0ySEn0p0w00p0w00p0w00p0w00p0"]),
   (["Ideo", "Ideographic"],
   ["HTi1p8e2wv4BVjx2QV4SQuGo2ycwvAg0rBGs8wDswa9EQjHnPL0wIJ1w1zEu6C42AZqeCT1fP1xMhMewMiAz95zG6"]),
   (["Join_C", "Join_Control"],
   ["DLk1"]),
   (["LOE", "Logical_Order_Exception"],
   ["yTl4yu4xXa220wCO712011"]),
   (["MCM", "Modifier_Combining_Mark"],
   ["wQ8120z706031Kg11230w00"]),
   (["NChar", "Noncharacter_Code_Point"],
   ["xAO0w0Lu1xBB01xBB01xBB01xBB01xBB01xBB01xBB01xBB01xBB01xBB01xBB01xBB01xBB01xBB01xBB01xBB01"]),
   (["OAlpha", "Other_Alphabetic"],
    ["W00tcNid10111110xaawhc16g0y86432140w40ufy9ay81381213yd0wtb366jwn12e1152a1t2wr62121a0a1t2wr4412140u130b2wr712",
     "11l1m242wr6212191a1u0ws43212a0w94wq6121281b1t2wr6121281b1f0c3wr61212a0a1t2xd51017i1wu026i0y602511g0A8i9a1w4y",
     "hb1023n342122633db10a3wR91u1u1u1x4iB21w30ypb48C54wq92jxc1b2wi4whewt2u821wqawjiI9w2wTowkxH0w0wwxm7w31Gd080n4x",
     "q1wjf10wq0w74sbwe3whbw60x5dc081we2wj0122150wd450Ck7Qy10xBr4wRr21153Ud3x30Fb1xh0Db2wmdwe1b2we890wu2w5bi1wq2wh",
     "ce1xu8206020A29n3wr62121a0a1xm810201311yac12ydhCk626t1xke10ydayadD9cCu511213010zi62540s9wb413iawfdI4716xll1d",
     "yt53011121030x441113G739110wh632MLsgySk01wn73y01PI50EI561g261114y70xEu0xy9p6p6p"]),
   (["ODI", "Other_Default_Ignorable_Code_Point"],
   ["Wa0yS31wQ71xEm0zLa0wSY20xh8XNM201ty3z3CnyS3"]),
   (["OGr_Ext", "Other_Grapheme_Extend"],
    ["xNe0o0Gh0o0y90o0Cf010411191ya0o0yq0f0xJ10u0wx10501051y80x91wxp0zE61wwDb0yf0RW21zUl0yn0Dg0e090y3090201250C70c",
     "0Co0De0Pd0c0wNk0QK81UYn165VTT7y2"]),
   (["OIDC", "Other_ID_Continue"],
   ["As0S60zC48wQs0wP41zKo0wSZh0"]),
   (["OIDS", "Other_ID_Start"],
   ["BLf1xDn0l0zyb1"]),
   (["OLower", "Other_Lowercase"],
   ["Af0f0L5871u4y30wl0yNg0yCjx0d0w3w5R70d0gcBpfWbpxvg1wwLe1Bo0z5231Wt390TLe0221wa18wVPgwu"]),
   (["OMath", "Other_Math"],
    ["y10Xd220q121CK80r2b0w13o1e1x3c403144i04029103460312112153354xd4231111101421414h2110161061Eb3Ad110o0h0Jb1c854",
     "512134e01025o1wq010t391G11w09I0lx13w11wUMs01040Bp010wUPtxm1x8112021231b10161x21327161r131410361Ft2o1o1u1o1u1",
     "o1u1o1u1o172wiAVl31q1110201913101060401010121110201010101011102316131310191g52141g"]),
   (["OUpper", "Other_Uppercase"],
   ["DWjfW1pyYOpp6p6p"]),
   (["Pat_Syn", "Pattern_Syntax"],
   ["w2ea6q310q3w3610111011404030n0w00DDon8e2i19EqS6A5P9uwAfLgz3Hd24of0wSOa1Dd1"]),
   (["Pat_WS", "Pattern_White_Space"],
   ["94i0y70DHc1o1"]),
   (["PCM", "Prepended_Concatenation_Mark"],
   ["wNh5Bt0wi0Hc1xi0xDDs0f0"]),
   (["QMark", "Quotation_Mark"],
   ["w3040z70f0DFu7p1yRq0Jn3d2wSX73B3040xs1"]),
   (["Radical"],
   ["HH0p1xqcBr"]),
   (["RI", "Regional_Indicator"],
   ["zDOlp"]),
   (["STerm", "Sentence_Terminal"],
    ["w20c0g0wHk0zn2Ap0wc2Ct0wu01031Ee1wUs1Uf041Tt0Bc1A21we050F41Gd3A71a121t2B11x31Z20n192yGn2Er0d0m1Iq0wvA20Dm1Ca",
     "030Ha1xo1y20zs1zn2zk1D10QWc021ws031Ae0c0g0x30xXe1wF64wd3B31yo3z32z5160g1xq111yf0Ej1yo1H115eyc1D12Ll010D31xp1",
     "Ih1Ra1xc1Pvl1z90x31b0Mq1Eh0PTa0CYu0"]),
   (["SD", "Soft_Dotted"],
   ["yc1Ba0E20u0wl0k0Fa0y5010BPn0wk0d030z80A20Ii0Bs1xZe0yOVf1wj1wj1wj1wj1wj1wj1wj1wj1wj1wj1wj1wj1xDc0Eq1q0"]),
   (["Term", "Terminal_Punctuation"],
    ["w20a010b130Vo080Lh0wq0xa0e012Ap0wca10Ci1wn517w00Dd1wEs1Ah045F11Ue7Tt0z02x91A2230w8321F41Gd3A71a112t2B14x01Z2",
     "0n192yGn2Er0d040a01131Ip1wvA11Dl2Ca4Ha1xo1y20zr2zn2z30g1D10QWc021wq213Ae0a010b130x3020wys0wh0wBb0Bd0F01zs5x6",
     "5xr3Zm4wd3B36yj3z32z5160g1xq4yf0Ej1yo2c1Gh33eyc1D12Ll010D31xp141Ib2we0Pp1xc1wGl4NOq1z90x32a0Mq1Eg1PTa0CYt3"]),
   (["UIdeo", "Unified_Ideograph"],
   ["IVdBVjx2QV4SZl11011a0101122xCS8wIJ1w1zEu6C42AZqeCT1fP1zQjAz95zG6"]),
   (["VS", "Variation_Selector"],
   ["BHh210wZCqfXOF3Cm"]),
   (["WSpace", "White_Space", "Space"],
   ["94i0y70q0AUj0xLdat150wg0zA10"])]

end RecordServer.Regexp.Property
