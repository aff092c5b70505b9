import Mathlib.Data.Nat.Basic

/-! A clock that goes round: how far ahead its next passage of a place is. -/

set_option autoImplicit false
namespace RtThread.Lib

variable {period now s s' d : Nat}

/-- From place `now` to the next passage of `s`, a whole round if the clock stands there. -/
def ahead (period now s : Nat) : Nat := if now < s then s - now else s + period - now

end RtThread.Lib
