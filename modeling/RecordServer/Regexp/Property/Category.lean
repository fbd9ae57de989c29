import RecordServer.Text.Table

/-!
# General categories

The general category of every code point in version 16.0 of the Unicode character database, and the groups of
categories which have names of their own.
-/

namespace RecordServer.Regexp.Property

/-- The general categories with the names of each. -/
def categories : Text.Partition where
  names :=
    [["Cc", "Control", "Cntrl"], ["Cf", "Format"], ["Cn", "Unassigned"], ["Co", "Private_Use"],
     ["Cs", "Surrogate"], ["Ll", "Lowercase_Letter"], ["Lm", "Modifier_Letter"], ["Lo", "Other_Letter"],
     ["Lt", "Titlecase_Letter"], ["Lu", "Uppercase_Letter"], ["Mc", "Spacing_Mark"], ["Me", "Enclosing_Mark"],
     ["Mn", "Nonspacing_Mark"], ["Nd", "Decimal_Number", "Digit"], ["Nl", "Letter_Number"], ["No", "Other_Number"],
     ["Pc", "Connector_Punctuation"], ["Pd", "Dash_Punctuation"], ["Pe", "Close_Punctuation"],
     ["Pf", "Final_Punctuation"], ["Pi", "Initial_Punctuation"], ["Po", "Other_Punctuation"],
     ["Ps", "Open_Punctuation"], ["Sc", "Currency_Symbol"], ["Sk", "Modifier_Symbol"], ["Sm", "Math_Symbol"],
     ["So", "Other_Symbol"], ["Zl", "Line_Separator"], ["Zp", "Paragraph_Separator"], ["Zs", "Space_Separator"]]
  source :=
    ["0w0t0l2n0l2m0i0l0p0l0h0l1d9l1p2l19pm0l0i0o0g0o05pm0p0i0p00w1t0l0n3q0l0o0q070k0p010q0o0q0p0f1o050l1o0f070j0f2",
     "l09mp0965np0579050905090509050905090509050905090509050905090509050905090509050905090509050905090509050905090",
     "509050905090509051905090509050905090509050905090519050905090509050905090509050905090509050905090509050905090",
     "509050905090509050905090509050905091509050905291509050915092519350915092529150915090509050915090519050915092",
     "509050915170905273908050908050908050905090509050905090509050905090519050905090509050905090509050905090519080",
     "509050925090509050905090509050905090509050905090509050905090509050905090509050905090509050905090509050905090",
     "5090509050905090569150915190509350905090509050905x6705q6ho36bod64o660o060ogcyi9050905060o09050216052l09023o1",
     "90l09220902091509g20985w3905192529050905090509050905090509050905090509050905090549050p0905091519wj5wg9050905",
     "0905090509050905090509050905090509050905090509050905090509050q0c4b190509050905090509050905090509050905090509",
     "050905090509050905090509050905090509050905090509050905090509050905091509050905090509050905090519050905090509",
     "050905090509050905090509050905090509050905090509050905090509050905090509050905090509050905090509050905090509",
     "05090509050905090509050905090509050905090509050905090509050905090509050209w62160l55w9l0h021q1n020cwdh0c0l0c1",
     "l0c1l0c0277q2373l12a15p2l1n0l1q1cal010l27w06079ckd9l371c07y5l070c610q0c561c1q0c371d972q170ld201070c07tcq217x",
     "qca702dd97w1c861q0l26021c0n17lc360c860c260c421le207oc221l0207a247no075201124c87w960cn10cw0a07wmc0a0c070a2c7a",
     "3c0a170c679c1l1d9l0607ec0a120772171217l20762070227321c070a2c321a121a1c07027a023712072c121d971n1f5q0n070l0c02",
     "1c1a020752371217l207620712071207121c020a2c123c121c222c02673207026d9c172c0l029c1a020782072207l20762071207421c",
     "070a2c420c1a020a1c021702e71c121d9l0n02670c520c0a120772171217l20762071207421c070a0c0a0c321a121a1c026c1a023712",
     "072c121d9q070f529c07020752272207322712070207122712272227b23a1c0a122a220a2c0217025a02dd9f2q5n0q024c0a2c077207",
     "2207m207f21c070c2a320c220c326c1207221702171c121d926l0f6q070c0a1l0772072207m2079207421c070a0c0a420c0a120a1c12",
     "6a125712071c121d92071a02bc1a1782072207w9c170a2c320a220a2c070q02372a0f672c121d9f8q07520c0a1207h227n2078207021",
     "7622c023a2c220c020a725d921a1l02b7wgc071c623n07560c7l0d9l12w57120702074207n20702079c071c8702174206020c620d921",
     "732w070q2leq0l0q2c1q5d9f9q0c0q0c0q0c0m0i0m0i0a177207w423cda0c4l0c174ca20cw420q7c0q520q1l4q3l12w57wba1c3a0c5a",
     "0c1a1c170d9l575a1c173c270a271a672c37cc0a1c1a5c070a0d9a2c0q19w620902490215wbl060527Fi2073217620702073217w9207",
     "3217w12073217620702073217e207wp2073217x421c2l8fj227fq9259xn215521h07Ouq0l07gt07pm0i0227xcl2e277267hc2a0287ic",
     "1a0l1287hc12b7c207220c12b7wkc1a0c6a7c0a1cal260l2n070c021d925f925l5h0l3c210c0d9257w3607wl2674c17w2c070247x729",
     "7u20c2a3c1a223a1c0a5c223q022l1d97t21742a7wc237p25d9f022qw27mc1a1c021l17wla0c0a0c620c0a0c0a1c7a5c921c0d925d92",
     "5l660l521cdb0cf2whc3a07wfc0a0c4a0c0a4c0a17720l1d9l6q9c8q8l2c1a07ta0c3a1c1a0c271d97wcc0a0c1a2c0a0c2a127l37w4a",
     "7c7a1c122l4d92272d97t65l1589050249wb2192l727c2l0cca0c673c075c071a0c170245wc6x05c605w26w5cx190509050905090509",
     "050905090509050905090509050905090509050905090509050905090509050905090509050905090509050905090509050905090509",
     "050905090509050905090509050905090509050905090509050905090509050905090509050905090509050905090509050905090509",
     "050905090509050905090509050905090509050905090509050905090509050905890509050905090509050905090509050905090509",
     "050905090509050905090509050905090509050905090509050905090509050905090509050905090509050905090509050905090509",
     "050905090509050905090509050905090509050905090589755219521579757975521952157209020902090209057975d21578757875",
     "7875420519380o050o25220519380o25321519320o25794o2215220519380o120ta14h5l1k0j0m0k1j0m0k0l7r0s014t0l8k0j0l3g1l",
     "2p0m0i0lap0l0g0l9t0142019f06021f5p2m0i060f9p2m0i0206c22nw12eccb3c0b2cb2eq190q390q15092519250q090q1p094q590q0",
     "90q090q093q05093507350q15191p49053q0p0q150q0ffew39050e3f0q123p4q4p1q3p0q1p0q1p0q6p0qup1q1p0q0p0qupDjq7m0i0m0",
     "i0qjp1q6m0i0qxip0qtpoqw8p5qx92lqa2kfwsqxfflqArp0q8p0qwmp7qyhp0qCum0i0m0i0m0i0m0i0m0i0m0i0m0i0ftqwcp4m0i0pum0",
     "i0m0i0m0i0m0i0m0i0pfqD7pz6m0i0m0i0m0i0m0i0m0i0m0i0m0i0m0i0m0i0m0i0m0i0px0m0i0m0i0pw0m0i0pD9qwgpkq1p5qw721qw0",
     "20qyb9wg5wg9050925190509050905093509051905561925090509050905090509050905090509050905090509050905090509050905",
     "090509050905090509050905090509050905090509050905090509050905090509050905090509050905090509050905090509050905",
     "09050905090509050905090509051q590509050c2905024l3f0l15w620502450217wo2660l02dc07m287620762076207620762076207",
     "6207620cw0l1k0j0k0j0l2k0j0l0k0j0l8h0l1h0l0k0j0l1k0j0m0i0m0i0m0i0m0i0l460l9h1l3h0l0m0lcq1l2m0i0m0i0m0i0m0i0h0",
     "2w2qp20qxq2bqBr2pqft0l2q06070e0m0i0m0i0m0i0m0i0m0i0q1m0i0m0i0m0i0m0i0h0m0i1q0e8c3a1h064q1e26070l0q1207xn21c1",
     "o16170h07xrl06270247wb207y020q1f3q97w0qw628q07fqu20f9qtf7q0feqw0f9qw7feqF97BVjqx17QVp607wAq22qwn287w865l17Dj",
     "60l27fd9712j9050905090509050905090509050905090509050905090509050905090509050905090509050905090509050905070c0",
     "b2l0c9l0609050905090509050905090509050905090509050905090509050905061c17x7e9c1l527om68o1905090509050905090509",
     "050905290509050905090509050905090509050905090509050905090509050905090509050905090509050905090509050905090509",
     "050905090509050905090506057905090509150905090509050905060o19050905070905090529050905090509050905090509050905",
     "09050905094509450905090509050905090509050905093509050915021905020502050905090509050902k62905070615076c072c07",
     "3c07ma1c1a0q3c022f5q1n0q0257wkl327a17wiafc127l1d925ch75l270l071c0d97rc7l17mcaa12al07s22c2a07wfc0a1c3a1c1a2lc",
     "2060d923l174c06078d974207w9c5a1c1a1c12872c077c0a021d921l37f6075q270a0c0a07wic070c271c174c170c0702n7160l17aa0",
     "c1a1l17061a0c029752175217528762076205wbo0635860o1235xh7w3a1c0a1c0a1l0a0c021d9257GOb2b7m237wh234xz13BPd7Go217",
     "yc2w6562b542470c079p07c2074207020712071207yeog2f7Gli0m0qf7x1217wm26q02w07bn0q2cfl6m0i0l025cfl0h1g1m0i0m0i0m0",
     "i0m0i0m0i0m0i0m0i0m0i0l1m0i0l3g2l220l3h0m0i0m0i0m0i0l2p0h0p220l0n0l12374207za211020l2n0l2m0i0l0p0l0h0l1d9l1p",
     "2l19pm0l0i0o0g0o05pm0p0i0p0m0i0l0m0i0l179607wd617u227521752175217222n1p0o0q0n120q0p3q12912q1217b207p207i2071",
     "207e217d2w27yt24l223fwd22q8ewlf3qgf1q220qc22q02wfqwdc02z57s227wh2ec0fq237w0f3287je077e0247w6c4247t20l07w4237",
     "7l0e42wa9w85w87xf21d9259w4235w4237w8277wk2al09a209e20962091205a205e20562051227wk2b7F0287l29772n65206wa20682x",
     "6752170207wc20712270217m20l0f77mq1f67u27f82wg7i207124f47lf522l07p24l02x17wo23f171ff21fwe70c220c124c373207220",
     "7s21c223c0f826l8267sf1l07sf22w077q07rc123f4l6287wm22l67l21f77i24f77h26l32bf62xh7xa2wn9wj2c5wj26f57w4c327d925",
     "d97360709l22c4h0605l27p12Blfu207wa20c1h021712f722wnc37sf970277lcaf3l42l7hc3l32w67kf62j7m28a0c0a07wlcel623fjd",
     "9c071c17028c2a07wda2c3a1c1l110l3c02910217o26d925c27w4c4a0c720d9l370a170277w3c0l17028c1a07wga2c8a173l3c3l0a0c",
     "0d970l070l220fj2a7h207oa2c2a1c0a0c1l5c071c02wu7620702073207e2079l0257wfc0a2c724d925c1a120772171217l207620712",
     "07420c170a1c0a321a121a2217025a02474a121c622c42a7920702170207w62070a2c520a021a020a320a1c0a0c070c070l120l127c1",
     "2s7wla2c7a1c2a0c073l4d9l120l0c0722t7wga2c5a0c0a3c1a0c171l07027d92Aa7wfa2c321a3c1a0c1lm73c12w27wga2c7a1c0a0c1",
     "l2702ad925lc2i7wbc0a0c0a1c5a0c070l025d925dj2r7q21c0a0c0a1c3a0c423d9f1l2q0762At7wca2c8a0c1l02y69w05w0d9f82b77",
     "217021772071207na520a121c1a0c070a070a0c0l228d92x777217w7a2c321c1a3c070l070a02q70c97w8c5a070c3l7c02770c5a1c27",
     "wecca0c1l270l42c7xa26l92Aq7w1l02dd92578207w5a0c620c5a0c070l429d9fi22l17t21cl20a0c6a0c1a0c12xa762071207w6c522",
     "c020c120c670c027d925752071207w0a420c120a1c0a0c07026d92Eu7ic1a1l126c170a07c207w2a1c422a1c0a0c0lcd9c02xm702efk",
     "q7n3qg2cl07Ym2y8eyh20l42a7B92xS07y3l12c7wyh1fc075ce297zzq247No2Cyk7tcba2c2d92wTs7Na267u20d923l17xg20d9257t21",
     "c4l0297wgc6l4q363l0q029d920f6207k247i2Is627w861l2d92Bb9w05w0fml32y77xc23c070awn26c36c2x161l060c02aa12d7BGs27",
     "7wDs2w9792EE66320662061207Eb2e702s7221702d73277Hn2xHd7yd247c2278267921q0c1l0132zxpqCmd925qJ12xdcwe21cm28qym2",
     "wsqCs29qw721qwsa1c2q2a517c7q1c6qtc3qwt2kqx3c2q02ysfj2bfj2bqxo28fo2za9p5p9p56205h9p5p902091219021912193209753",
     "20502056205a9p5p91209321972096205p912093209420902296205p9p5p9p5p9p5p9p5p9p5p9p5r219op05op0559op05op0559op05o",
     "p0559op05op0559op05op055905021dwiqLfcwnq3cwiq7c0qdc0q1l42ec420ce2wzi59705j25552Bqc620cg21c620c120c4246wu2w1c",
     "02yi7wd22c66621d92370q02F97tc02g7wcc3d924n02Jt7q60c3d92Br7tc170d923l02Ke7620732071207e207Ba21f8c62w99w25w2c6",
     "6023d923l12U9fwrq0f2n0f32xdfwdq0fe2B773207q20712070217020792073207020702570237020702070207220712070217020702",
     "0702070207020712070217320762073207320702079207g24722074207g2wkp12Dlqwc23qy62bqe21qe20qe20qw529fcqA52woqs2cqw",
     "c23q826q12dq52ztqD2o4qSe23qg22qc22qyp23qy125qb23q02eqb23qwo27q925qw827qt21qb23q12wuqFt2bqd21qc22q924qwo26qe2",
     "1qa25q826qzm20qxtd92wx67wIJ12w07zEu257C4217AZq2d7CT12e7P12xMg7Me2wMh7Az9247zG62SWP0102t1y22z3cCm2xAQ13xBAu21",
     "3xBAu21"]

/-- The groups of general categories: their names and the categories in them. -/
def categoryGroups : List (List String × List String) :=
  [(["C", "Other"], ["Cc", "Cf", "Cn", "Co", "Cs"]), (["L", "Letter"], ["Ll", "Lm", "Lo", "Lt", "Lu"]),
   (["LC", "Cased_Letter"], ["Ll", "Lt", "Lu"]), (["M", "Mark", "Combining_Mark"], ["Mc", "Me", "Mn"]),
   (["N", "Number"], ["Nd", "Nl", "No"]),
   (["P", "Punctuation", "Punct"], ["Pc", "Pd", "Pe", "Pf", "Pi", "Po", "Ps"]),
   (["S", "Symbol"], ["Sc", "Sk", "Sm", "So"]), (["Z", "Separator"], ["Zl", "Zp", "Zs"])]

end RecordServer.Regexp.Property
