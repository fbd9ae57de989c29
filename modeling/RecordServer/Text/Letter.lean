import RecordServer.Text.Table

/-!
# Letters and numbers

The tables of two properties of version 17.0 of the Unicode character database: `Alphabetic` and the general categories
of numbers. `isAlphanumeric` is the class of the characters which may stand in the name of an element of a document.
-/

namespace RecordServer.Text

/-- The characters with the property `Alphabetic`. -/
def alphabetic : Intervals :=
  .ofSource
    ["x3p6pwg0a0405m1u1Jn4be47010xo0th1123106012101j1xk1ze8Aa1w6206w9w8d101111108q43ta5wo16ey8174742a220gwgdy7ow19",
     "1405n2ijo7a5n16708waab366xd1f124edi17212l16103337212110804114c1a04215412l16111111444121407310h5b218121l16111",
     "438121130f3l34217212l161114372121914114d0g115321331101131323b4432123060w9c121m1f37121281121123s317121m191437",
     "1212815213d2cc121w9271212105374m5121h3n181026851017i1dwq5660wk110141n101i12241060e3w10x171w44i4f1w4x5wn1024g",
     "x1a32w610502wb1Fm132610132w9132w1132610132e1wp132x4w6fgxn253Ou2g1p5xc3a7jbkcjcc1211cwk2ie040x5xq7wb5x7au1b48",
     "nt24bwc4pwnr4x02jwj0n1b2wiwk1e17wkwa23awc1aewnm2aw42a5wb22wa31511305B5jw2bDt252w625271010101u2wl161032163325",
     "4c5216yn0d0gcy8040291034601010131a235440hw9V7wkwWgCb6331cw610502wo70gm96161616161616161w0wg0K42p874244xn621x",
     "r135wb1y0hw0whfLgBVjx2Swmx5we2Dk3fa1kwf573yjw882y92xjkk1w1owkcx510wd53012aw15w3ds3wj1bf0gfa41wn9dim3x61010o2",
     "2f23b5252596161wb1d6ytlGObcm4whDTkGo2ycw76c45b1c141011111yew2Glix12wmw9byn41zaw5p6pbxq35252522w4b1p1i111e2dw",
     "3ytx7wlDjs3whwgw0dt5wb5t2w44714wbA2iw44w44w88wkca1e16111a1e16113wkcF09la7o51wa18x75201wc11302mam9ux3i11alap6",
     "pw7wo61x231157121swbs3sw471rrwmalaidhyhxawowjdwjdw8w3r305mD2wa1131g5wj23sa08lwbhwfkrm9x7wc4awp90donwjh38w330",
     "9x11391a010w4h1w22063x0610131e197wpn317212l161114372121306056s910201w619102013113010wdx31213k2ux32110Atwm26p",
     "5w3x01030wswm20x9q2dl6Auwpyax1w072027111t112123y072we251011rwj29hx950ixaya7xqw1w081wd1610wit2l1dxb6111wc3011",
     "121021o5111w5111310nwcDcm9g1w932yi0xhYmy9yhhB9xS1y3fwyhh5pzzq5NoCylwfwU9Na7uhxghtiwgg3w0k5iItwdBpx1w1o2owdxc",
     "4wp7gx2110c69CQ3waw0y4ylEwl316111Ebf0t220e38HnxHeyd5c387940BC2xm1x8112021231b10161x21327161r131410361Ft2o1o1",
     "u1o1u1o1u1o1u1o17wXfu65Br61g2611145wuw20yjwda6g0FbtiwcKjrCbt20Blu1l81C7613111e1Bawsx53030wCq31q1110201913101",
     "060401010121110201010101011102316131310191g52141gP8p6p6pyVdwIJ1w1zMa2Bv72CT1fP1xMhMewMiAz95DUq"]

/-- The characters of the general categories of numbers. -/
def numeric : Intervals :=
  .ofSource
    ["wh9yr15022wKf9za9Bc9I99yp945yf9yp9yp925yhcym986ya9yb67iyg9y39yp9x8jDk9x89S6jXd2Cm969m9El9z4aAa969Ar9xo9za969",
     "wxn03569Bcwj24SdwsxglPatwIl0U20p8e2G23ze9u71ew19w8eZRo9B29Fa5zu9w79Bc9m9xo9I39Rz49Kswdcwph1G0qw53t080za4Bg9Z",
     "c7p6w88xd4m5A512f2wex28wl1u2xd4yb7o7wa6Fk5wh969DuuA39wb3yj6zatz49wt9zk97jD39G19yp9H29y996jxebIhiy09Qb9xosCa9",
     "x89wn9Gh9y9kwydyhLAm9xIh9xo9za916Lu9DemG82TSo9wLljcjyfowzowixJc9Ij9L69Cu9S38z49Ugwr1213xewd1ewv1cxWs9"]

/-- A letter of any script. -/
def isAlphabetic (c : Char) : Bool := alphabetic.contains c

/-- A letter or a number of any script. -/
def isAlphanumeric (c : Char) : Bool := alphabetic.contains c || numeric.contains c

end RecordServer.Text
