import QuasiDefinite.Decimal.Reading
import QuasiDefinite.Settings.Basic
import QuasiDefinite.Text.Blank

namespace QuasiDefinite.Settings

/-- A word without blanks around it and without capitals. Only words of ASCII
letters are compared with it, so other letters may stay as they are. -/
private def word (text : String) : String :=
  String.ofList ((Text.trim text.toList).map Char.toLower)

private def readNumber (text : String) : Option Float :=
  Decimal.readFloat? (Text.trim text.toList)

def keys : List String :=
  ["KKT_ORDERING", "KKT_STATIC_REG", "KKT_DYN_REG_EPS", "KKT_DYN_REG_DELTA",
    "KKT_REG_WARN", "KKT_CHECK_FINITE", "KKT_REFINE_TOL", "KKT_REFINE_ITERS"]

def ofEnvironment (lookup : String → Option String) : Settings Float :=
  let number (key : String) (otherwise : Float) : Float :=
    ((lookup key).bind readNumber).getD otherwise
  { order := match (lookup "KKT_ORDERING").map word with
      | some "natural" => .natural
      | some "amd" => .minimumDegree
      | _ => standard.order
    staticReg := number "KKT_STATIC_REG" standard.staticReg
    dynamicEps := number "KKT_DYN_REG_EPS" standard.dynamicEps
    dynamicDelta := number "KKT_DYN_REG_DELTA" standard.dynamicDelta
    warnThreshold := number "KKT_REG_WARN" standard.warnThreshold
    checkFinite := match (lookup "KKT_CHECK_FINITE").map word with
      | some text => text != "0" && text != "false"
      | none => standard.checkFinite
    refineTolerance := number "KKT_REFINE_TOL" standard.refineTolerance
    refineLimit := ((lookup "KKT_REFINE_ITERS").bind fun text =>
      Decimal.readCount? (Text.trim text.toList)).getD standard.refineLimit }

end QuasiDefinite.Settings
