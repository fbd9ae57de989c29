import RecordServer.Text.Table

/-!
# Boundaries of graphemes, words and sentences

The classes of code points by which texts are divided into graphemes, words and sentences, in version 16.0 of the
Unicode character database. Behind the last class of each come the code points of no class.
-/

namespace RecordServer.Regexp.Property

/-- The classes for the boundaries of graphemes with the names of each. -/
def graphemeBreaks : Text.Partition where
  names :=
    [["CN", "Control"], ["CR"], ["EX", "Extend"], ["L"], ["LF"], ["LV"], ["LVT"], ["PP", "Prepend"],
     ["RI", "Regional_Indicator"], ["SM", "SpacingMark"], ["T"], ["V"], ["ZWJ"]]
  source :=
    ["094001100hdy10w1dc00dO42yidDq26dDe2wdd020d021d021d020dwo75d92ad000dwe2kdf20dy72670d025d121d023dw170d020dt2qd",
     "xs2adwq28d820dn23d028d022d024dwb22dwk71d428dwa2n702w090dwm209020d09227932091d026d921ds2091dwo20d0209123d191d",
     "19120d820d921dp20d12190dwo20d09221d321d122d220dt21d220da2190dwo20d09224d02190d09120dj21dl25d02091dwo20d02190",
     "23d191d19120d622d921dt20dwr20902091d292d09220d820dw8209220dwn20d02293d022d023d621da21ds2091dwo20d09021902091",
     "d022d023d621da21de90db2191dwn21d0209123d092d0922070d720d921ds2091dx720d3209122d020d09620dh91dwt20d09026db27d",
     "y420d09028da26dxa21dq20d020d020d391dwh2d9024d021d42ad02w4d820dy8239025d0219121dm9121d322df23dc20d09021d520de",
     "20dy43y2bx9axpdG722dZf23dr22ds21dt21dx12190269720912ad820dwd220020dyn21dw220dyo22932192d391209522dC1219120dw",
     "p90209026d020d020d1279529d120dwg2udwh2390dwf299322dw628db2190dt90239125dwo20902192209024dwg97279121dzr22d02c",
     "9026d320d520d19021dBb2x1dLq0020c001dn06dwh0fdy22w1dyB022dzg20dy22w0dMq25dyb21dwvH023d029dw021dxh21dDn20d220d",
     "320dm912190d320dxk91dwi9f21dp2hdc20dw627do2a9020db3sd22290dwf20912391219120dw420dx42591219121db20d72090dwe20",
     "dwj20d022d121d421d020dw9902191d49020dCi9120912091d09020dh506q506q506q506q506q506q506q506q506q506q506q506q506",
     "q506q506q506q506q506q506q506q506q506q506q506q506q506q506q506q506q506q506q506q506q506q506q506q506q506q506q506",
     "q506q506q506q506q506q506q506q506q506q506q506q506q506q506q506q506q506q506q506q506q506q506q506q506q506q506q506",
     "q506q506q506q506q506q506q506q506q506q506q506q506q506q506q506q506q506q506q506q506q506q506q506q506q506q506q506",
     "q506q506q506q506q506q506q506q506q506q506q506q506q506q506q506q506q506q506q506q506q506q506q506q506q506q506q506",
     "q506q506q506q506q506q506q506q506q506q506q506q506q506q506q506q506q506q506q506q506q506q506q506q506q506q506q506",
     "q506q506q506q506q506q506q506q506q506q506q506q506q506q506q506q506q506q506q506q506q506q506q506q506q506q506q506",
     "q506q506q506q506q506q506q506q506q506q506q506q506q506q506q506q506q506q506q506q506q506q506q506q506q506q506q506",
     "q506q506q506q506q506q506q506q506q506q506q506q506q506q506q506q506q506q506q506q506q506q506q506q506q506q506q506",
     "q506q506q506q506q506q506q506q506q506q506q506q506q506q506q506q506q506q506q506q506q506q506q506q506q506q506q506",
     "q506q506q506q506q506q506q506q506q506q506q506q506q506q506q506q506q506q506q506q506q506q506q506q506q506q506q506",
     "q506q506q506q506q506q506q506q506q506q506q506q506q506q506q506q506q506q506q506q506q506q506q506q506q506q506q506",
     "q506q506q506q506q506q506q506q506q506q506q506q506q506q506q506q506q506q506q506q506q506q506q506q506q506q506q506",
     "q506q506q506q506q506q506q506q506q506q506q506q506q506q506q506q506q506q506q506q506q506q506q506q506q506q506q506",
     "q506q506q506q506q506q506q506q506q506q506q506q506q506q506q506q506q506q506q506q506q506q506q506q506q506q506q506",
     "q506q506q506q506q506q506q506q506qdbbmd3awhdEG320dSn2fdf2fdBk00dA221dxh0bdLg20dC820dzo24dwRq22d021d423dw822d3",
     "20dA921dNe23dx224dF621dxg23dx72adwh23dys902090dwl2edw920d121d92290dwd92239121d170d320d970dwi22dw4249027df91d",
     "wc20db2190dwg92289020d071d423d09020dxt92229123d520d120dA1209227dk2191dwn21d020902093d191d19120d820d991d126d2",
     "24dx4209125d020d120d02290d091227020dd21dxj922791229020dm20dxi2091259020912090219021dCh209123d193219021dq21dx",
     "j922791209021dyc2090209127dy7209020d1239024dD792289021dCr2094d091d1237090709020dzg9223d1219320d290dr29dw8259",
     "07023d720d8259122dw8752c9021dI19026d0259020dxj2ld0902690219021dys25d220d021d0267020dx394d021d091209020dG5219",
     "1d8217090dwg9124d29122dm20dAM00f20d52edGXo2b9222dxNf24dwr26dMsb0d2b3dKi20d09wnd623dxi20da21dPI321d003dzWi2we",
     "d12mdMe24d2250727d126dt23dzn22dxwp2wnd32wid720dd20dl24d02edwHq26d02gd126d021d024dy620dA426dH220dwt23dLb23dD5",
     "21dSm26dyf26dxE18pdLa24dVKLq0w02y20z32Cm0yS3dBJF1"]

/-- The classes for the boundaries of words with the names of each. -/
def wordBreaks : Text.Partition where
  names :=
    [["LE", "ALetter"], ["CR"], ["DQ", "Double_Quote"], ["Extend"], ["EX", "ExtendNumLet"], ["FO", "Format"],
     ["HL", "Hebrew_Letter"], ["KA", "Katakana"], ["LF"], ["ML", "MidLetter"], ["MN", "MidNum"],
     ["MB", "MidNumLet"], ["NL", "Newline"], ["NU", "Numeric"], ["RI", "Regional_Indicator"],
     ["SQ", "Single_Quote"], ["WSegSpace"], ["ZWJ"]]
  source :=
    ["i980c110ihg0i020i3f0i3a0i0b0i0d990a0i40pi340i00pi9c0iw400i150i600i090i100i40mi00ui00Kei50w23yi04i001i103a000",
     "i5009002i000i00ji00xki00zei0360Aai00w6i103i000900w9a000i53wdi030i031i031i030i76qi3630090ia55i5a1i13ai050i20w",
     "b3kd9i0d0a0i001300y5i0003650i0350131i03301d902i100ie5000300t3qi10xq3a00idd90w13801i1a0i000i130i10l3300380032",
     "0034ih0o32i30ai40ni005i051i4380wa3n503w10wm32003h00360931i1d9i00f32i007i101i10li006i000i203i1300036i131i1320",
     "0i730i301i00231i1d901i900i030i132i005i301i10li006i001i001i001i130i034i331i132i230i603i000i6d9310230ia32i008i",
     "002i00li006i001i004i1300037i032i032i100ie0131i1d9i80035i032i007i101i10li006i001i004i1300036i131i132i632i301i",
     "00231i1d9i000if3000i005i202i003i201i000i001i201i202i20bi334i232i033i100i530idd9if3407i002i00mi00fi1300036i03",
     "2i033i631i002i100i10131i1d9if0032i007i002i00mi009i004i1300036i032i033i631i501i00131i1d9i00130ib3308i002i00w9",
     "310036i032i03300i40230i60231i1d9i905i032i00hi20ni008i000i106i230i335i030i037i5d9i131iwt30i136ib37i0d9ixo30i1",
     "38ia36i0d9iw600im31i5d9ia30i030i030i33107i00w4i33ji031043ai03w4i830iy63ji0d9ib33i332i032i136i233ic3bi030d933",
     "i10w6i000i400i10wbi00Fmi003i106i000i003i10w9i003i10w1i003i106i000i003i10ei00wpi003i10x4i132iw00fif0xni105i20",
     "Oui10gg00pi40xci20ai60h33i80i32ia0h31ib0ci002i031ix13w0i830i1d9iw1325030d9i50xqi604310w23000i40x7i90ui03bi33",
     "bi9d9iz3d9iw60m34iwp39i03si130d9i5d9il3uiwh340wf3g07i2d9ig38ib320t3c01d90wc3dib0w43ji7d9i202d90w4i10ai40wbi1",
     "02if32i03k03300530013200i40B53x10Dti105i10w6i105i107i000i000i000i00ui10wli006i000i202i006i203i105i30ci402i00",
     "6i2g6i0g2i030h051i7b1i9b0i190c15440ie41i2a0ie40i9g054i059i000ic00if0ciwj3w1ig00i300i109i000i204i500i000i000i",
     "003i00ai103i404i300ig0w9iV60wkiwWf0Cbi5033201ib0w6i000i400i10woi600ie300mi806i006i006i006i006i006i006i006i03",
     "w0iwf00iJtg0i300iw435i074i401ixt3171i27xsi073i40wbi00y0ig0w0iwg7fiBl7wfi07xpiXY80wBhix40wei10Dki20fd901ij0wf",
     "33i039i00u310xh31il0Bbi101i000i007ik0f30023003300m34i330ii0wkib310wi3hi9d9i53h05i200i00130d90r37i10m3cib0si2",
     "330wf3did00d9ia30i9d9i50w93di802300731i1d9iw132iwi30i032i131i431i030it0a34i10231i905i105i105i806i006i00wqi50",
     "yl37i031i1d9i50GObib0mi30whiEF406ib04i4603069i06ci064i060i061i061i0690y4iw10Glih0x1i10wmiw80bi33fa0i190a0ia3",
     "fi241in42a0i0b0i0a090ip04i00zai150i6b0i3a0i0b0i0d990a0i40pi340i00pia7wo310ui205i105i105i102ir52i30bi00pi00ii",
     "001i00ei10diw20ytix60wlizb30iz50si20whie30iu0w0ic0ti40w634i40ti10w4i307i004iwa0A2i1d9i50w4i30w4i30w8i70wkib0",
     "ai00ei006i001i00ai00ei006i001i20wkib0F0i80li907in05i00wai008ix605i100i00wci001i200i10mi90mi80uix20ii001i90li",
     "90pix70woi501ix10032i031i43303i002i00si132i330iw00si20siw307i00r31io0wmi90li90iic0hiyg0xaiwn0wjic0wjic0w433i",
     "7d9i5d90ri234i00miD10wai031i201if02iwn330si900i70l3aiu0h33iwa0kiq0mi8320wl3eiud930013100i8330wd3ai150i330i95",
     "0i10oi6d9i5320w43di0d9i3003100i70w330i100i8320wg3d03i333i031d900i000iw30hi00o3bi5300130iwu06i000i003i00ei009",
     "i60wf3bi4d9i533i007i101i10li006i001i004i0310036i131i132i100i530i40431i136i234ia09i000i100i00w6i00038i030i130",
     "i033i034003000ic31is0wl3h03i4d9i33002it0wg3j01i000i7d9iAa0wf36i138im0331iw20wg3gi200iad9iw60wb3c00i6d9i5djiw",
     "p3ei3d9iBb0wc3eiy70x1d9ik07i100i107i001i00n35i031i13300300031ibd9ix707i10w736i13600i00030iq00390w8360033i730",
     "i7003a0we3fi200ih0xaiBc0w1ied9i508i00w537i03700ied9in0ti13li03dixa06i001i00w635i230i031i0360030i7d9i505i001i",
     "00w034i031i03400i6d9iEu0i33i83100300ci00w236i234icd930ixm00ixg0Ymiy80yhig0B9ixS00y3ie0wyh5f30053ei90zzqi40No",
     "iCyk0t3hd9iwTs0Nai60ui0d9i50xgi0d9i50ti134ia0wg36i803ibd9i80ki40iiIs0wdi2d9iBb0x1iz30xci330003wni6330cix101i",
     "00030ia31iMwd73i076i071i070iE772iwi70id73ixUe0ydi40ci208i609i231i053izFhd9iLl3wei13miMe34i2355737i136it33izn",
     "32iJ80xmi00x8i001i100i101i103i00bi000i006i00x2i003i107i006i00ri003i004i000i206i00Fti10oi00oi00ui00oi00ui00oi",
     "00ui00oi00ui00oi007i1dwiiLf3wni33wii730id30il34i03eiwzi0ui505iBq36i03gi136i031i034i40wuiw130iyi0wdi23606i1d9",
     "i300iFa0t30ig0wc33d9iK40r33d9iBr0t3100d9iKj06i003i001i00ei00Baia36iw90x53600i3d9iwCb03i00qi001i000i100i009i0",
     "03i000i000i500i300i000i000i002i001i000i100i000i000i000i000i001i000i103i006i003i003i000i009i00gi402i004i00giP",
     "70pi50pi50pixtepiLa34ixygd9iVII050it3y2iz33CmiBNx5"]

/-- The classes for the boundaries of sentences with the names of each. -/
def sentenceBreaks : Text.Partition where
  names :=
    [["AT", "ATerm"], ["CL", "Close"], ["CR"], ["EX", "Extend"], ["FO", "Format"], ["LF"], ["LO", "Lower"],
     ["NU", "Numeric"], ["LE", "OLetter"], ["SC", "SContinue"], ["SE", "Sep"], ["SP", "Sp"], ["ST", "STerm"],
     ["UP", "Upper"]]
  source :=
    ["e8b050b120ehb0c010e312e19100e07990e3c0e0dp10e010e26p10e010e6a0epb0e86010e040e660e36010e3dme0d66ne067d060d060",
     "d060d060d060d060d060d060d060d060d060d060d060d060d060d060d060d060d060d060d060d060d060d060d060d060d060d061d060",
     "d060d060d060d060d060d060d061d060d060d060d060d060d060d060d060d060d060d060d060d060d060d060d060d060d060d060d060",
     "d060d060d060d160d060d062d160d060d160d261d360d160d262d160d160d060d060d160d061d060d160d260d060d16180d06283d160",
     "d160d160d060d060d060d060d060d060d060d061d060d060d060d060d060d060d060d060d061d160d060d260d060d060d060d060d060",
     "d060d060d060d060d060d060d060d060d060d060d060d060d060d060d060d060d060d060d060d060d060d060d060d066d160d161d060",
     "d360d060d060d060d06x6806w48661e38bed64e680e080eg3yid060d06080e0d060e163e0d0e5d0e0d2e0d0e0d160dge0d86w3d061d2",
     "62d060d060d060d060d060d060d060d060d060d060d060d064d060e0d060d161dwj6wgd060d060d060d060d060d060d060d060d060d0",
     "60d060d060d060d060d060d060d060e036d060d060d060d060d060d060d060d060d060d060d060d060d060d060d060d060d060d060d0",
     "60d060d060d060d060d060d060d060d060d160d060d060d060d060d060d061d060d060d060d060d060d060d060d060d060d060d060d0",
     "60d060d060d060d060d060d060d060d060d060d060d060d060d060d060d060d060d060d060d060d060d060d060d060d060d060d060d0",
     "60d060d060d060d060d060d060d060d060d060e0dw6e180e290e16w9c0e63wde030e031e031e030e78qe384eb45e591e13ae040c28wb",
     "3k79e071e081308y5c0803640e0358131e033817982e180c2eb4080308t3qe18xq3a80ed798w13881e190c080e130e18l33803880328",
     "034e8c0e0c0e2c1e08o32e38ae48ne085e041e4388wa3n403w18wm32803h80368931c179e08f32e087e181e18le086e080e283e13080",
     "36e131e13280e730e381e08231e17981e980e030e132e085e381e18le086e081e081e081e130e034e331e132e230e683e080e6793182",
     "30ea32e088e082e08le086e081e084e1308037e032e032e180ee8131e179e88035e032e087e181e18le086e081e084e1308036e131e1",
     "32e632e381e08231e179e080ef3080e085e282e083e281e080e081e281e282e28be334e232e033e180e530ed79ef3487e082e08me08f",
     "e1308036e032e033e631e082e180e18131e179ef8032e087e082e08me089e084e1308036e032e033e631e581e08131e179e08130eb33",
     "88e082e08w9318036e032e03380e48230e68231e179e985e032e08he28ne088e080e186e230e335e030e037e579e131ec8wg308136e4",
     "8637e079ew781e080e084e08ne080e08930813880e184e080e036e079e183ew080em31e579ea30e030e030133187e08w4e33je031843",
     "ae03w4e830ewp8wb3j8079c1e3853383328032813682338c3b80307933e1dw6e0d0e4d0e18wbe0608Fle083e186e080e083e18w9e083",
     "e18w1e083e186e080e083e18ee08wpe083e18x4e132e1c0e3c1em8fefdxne165e28Oue0c08gb08p11e28xce28ae68h33e88i32c1e88h",
     "31eb8ce082e031eb8wk3w0c1e080e38030e179en90c0e390c0e032403079e58xqe684318w23080e48x7e98ue03be33be7c1798te184e",
     "a8wce38pe579ew68m34e38wl39e03se13079e579ec80c3e33uewh348wf3g87e0c179c1e1c1ea38e8c2328t3c81798wc3deb8w43je2c1",
     "e279e282798w4c168d060e48wbe182ef32e03k83308530813280e46B53x1d060d060d060d060d060d060d060d060d060d060d060d060",
     "d060d060d060d060d060d060d060d060d060d060d060d060d060d060d060d060d060d060d060d060d060d060d060d060d060d060d060",
     "d060d060d060d060d060d060d060d060d060d060d060d060d060d060d060d060d060d060d060d060d060d060d060d060d060d060d060",
     "d060d060d060d060d060d060d060d060d068d060d060d060d060d060d060d060d060d060d060d060d060d060d060d060d060d060d060",
     "d060d060d060d060d060d060d060d060d060d060d060d060d060d060d060d060d060d060d060d060d060d060d060d060d060d060d060",
     "d060d060d060d068d765e1d5e167d767d765e1d5e167e0d0e0d0e0d0e0d067d76de167d767d767d764e061d4e060e262e061d4e263e1",
     "61d3e367d4e462e061d4e2ba403141e291e217e300e2a144b0e811e0c1e611c2ekb044e049e060ea1160ec11e06cewj3w1egd0e3d0e1",
     "60d261d260e0d0e2d4e5d0e0d0e0d0e0d3e060d3608360e161d1e4d063e360egdf6f82d06083eHa13es11eHmdp6peP415e61dexg11eu",
     "19eHu1lex013ew011eLhdwg6wgd060d261d060d060d060d360d061d067d260d060d060d060d060d060d060d060d060d060d060d060d0",
     "60d060d060d060d060d060d060d060d060d060d060d060d060d060d060d060d060d060d060d060d060d060d060d060d060d060d060d0",
     "60d060d060d060d060d060d060d060d060d060d061e5d060d06032d060e4c2e36w6e060e460e18woe680ee308me886e086e086e086e0",
     "86e086e086e086e03w01ded11e119e3c080ebc0e410efc117eIfb090c0e18219e117e012e08835e084e184e38xne131e182e08xre083",
     "e48wbe08y0eg8w0ewg8feLf8BVjex18Swmex48wee0c08Dke0c18f7981ejd060d060d060d060d060d060d060d060d060d060d060d060d",
     "060d060d060d060d060d060d060d060d060d060d0608033e039e080d060d060d060d060d060d060d060d060d060d060d060d060d060d",
     "062318xh31e0c0e2c0eu88e1d060d060d060d060d060d060d062d060d060d060d060d060d060d060d060d060d060d060d060d060d060",
     "d060d060d060d060d060d060d060d060d060d060d060d060d060d060d060d060d069d060d060d160d060d060d060d06080e1d060d060",
     "80d060d062d060d060d060d060d060d060d060d060d060d060d460d460d060d060d060d060d060d060d060d360d060d160e1d060e060",
     "e060d060d060d060d0ek62d06080628630823083308m34e330ei8wke1c1e7318wi3he7c179e53h85e280e08130798r37e0c08m3ceb8s",
     "e2338wf3de6c1e48079e58430897984e08w93de882308731e179e2c28me280328wi30803281318431803080en82e18a34c18231e985e",
     "185e185e886e086e06wbe06de56xh8w337c031e179e58GObeb8me38wheDTj8Goe18ycew666eb64e4803089e08ce084e080e081e081e0",
     "8yeew18Gl11ef8x1e18wmew88be33f91c090e0c111e63fe091e11fe111e69100e190c19015e390eb84e08zae140e0c0e511e19100e07",
     "990e3c0e0dp10e010e26p10e010e011c01190e08wo318ue285e185e185e182er42e38be08pe08ie081e08ee18dew28ytex68wlezb30e",
     "z58se28whee30eu8w0ec8te48w634e48te18w4e387e084ewadw86w88xfe179e5dw4e36w4e38w8e78wkebdae0dee0d6e0d1e06ae06ee0",
     "66e061e28wkeb8F0e88le987en608162e06wae068ex685e180e08wce081e280e18me98me88uex28ie081e98le98pex78woe581ex1803",
     "2e031e43383e082e08se132e330elc1e78se28sew387e08r31eo8wme98le98iec8heyg8xaewndwjec6wjec8w433e779e57985dle234e",
     "0806leD18wae031e281ef82ewn338se980e78l3ae3c4el8h33c3ew68keq8me8328wl3ec1es7930813180e8338wd3ae140c330e940e18",
     "oe679e5328w43de079e0c2803180e78w330e180e8328wg3d83c1e133c0317980e080e0c1ew08he08o3bc1e0c1e0308130ewu86e080e0",
     "83e08ee089c0e58wf3be479e533e087e181e18le086e081e084e0318036e131e132e180e530e48431e136e234ea89e080e180e08w6e0",
     "8038e030e130e033e034803080c1ea31es8wl3h83c1e279e33082et8wg3j81e080e779eAa8wf36e138e0c1e4ce8331ew28wg3gc1e080",
     "ea79ew68wb3c80e679e57jer8qe13ee379e1c2e086eAt8wc3eey7dw06w079ek87e180e187e081e08n35e031e13380308031c0e0c0e87",
     "9ex787e18w736e13680e08030eq80398w8368033e2c1e230e7803a8we3fe0c180eh8xaeBc8w1ee79e588e08w537e03780c1ec79en8te",
     "13le03dexa86e081e08w635e230e031e0368030e779e585e081e08w034e031e03480e679eEu8i33c1e63180308ce08w236e234c1ea79",
     "30exm80exg8Ymey88yheg8B9exS08y3ee8wyh4f30853ee98zzqe48NoeCyk8t3h79ewTs8Nae68ue079e3c18xge079e58te134c0e98wg3",
     "6c1e683c0ea79e88ke48ieIs8wde0c179eBbdw06w0enc0ey98xce330803wne6338cex181e08030ea31ed8BGse78wDsew989eEE683e08",
     "6e081e08Ebee80es82e180ed83e78HnexHd8yde48ce288e689e231c043ezFh79eLl3wee13meMe34e2354737e136et33ezn32eJ8dp6pd",
     "p66e06hdp6pd0e0d1e1d0e1d1e1d3e0d763e060e066e06adp6pd1e0d3e1d7e0d6e06pd1e0d3e0d4e0d0e2d6e06pdp6pdp6pdp6pdp6pd",
     "p6pdp6re1doe06oe065doe06oe065doe06oe065doe06oe065doe06oe065d060e17wieLf3wne33wie730ed30e2c0eh34e03eewzi69806",
     "je565eBq36e03ge136e031e034e46wuew130eyi8wde23686e179e380eFa8t30eg8wc3379eK48r3379eBr8t318079eKj86e083e081e08",
     "ee08Baea36ew9dw26w23680e379ewCb83e08qe081e080e180e089e083e080e080e580e380e080e080e082e081e080e180e080e080e08",
     "0e080e081e080e183e086e083e083e080e089e08ge482e084e08geP7dpe5dpe5dpewEj12ewJ379ewx68wIJ1ew08zEue58C4e18AZqed8",
     "CT1ee8P1exMg8MeewMh8Az9e48zG6eSWP040et3y2ez33CmeBNx5"]

end RecordServer.Regexp.Property
