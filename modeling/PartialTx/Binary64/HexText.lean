import PartialTx.Binary64.Basic
import PartialTx.Text.Quoted

/-! The exact hexadecimal text of a number: a leading digit, thirteen digits of
fraction and a binary exponent. -/

namespace PartialTx.Binary64

def signedExponent (e : Int) : String := if e < 0 then toString e else "+" ++ toString e

def hexText : Binary64 → String
  | nan => "nan"
  | infinite negative => if negative then "-inf" else "inf"
  | finite negative m e =>
    let sign := if negative then "-" else ""
    let leading := m / leastNormal
    let fraction := String.ofList (Text.hexDigits 13 (m % leastNormal))
    if m = 0 then sign ++ "0x0.0p+0"
    else sign ++ "0x" ++ toString leading ++ "." ++ fraction ++ "p" ++ signedExponent (e + 52)

end PartialTx.Binary64
