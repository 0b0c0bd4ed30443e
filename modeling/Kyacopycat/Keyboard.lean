import Kyacopycat.Machine

/-!
The keyboard matrix: `change_keyreg_state` and `cat_keyb`.
-/

namespace Kyacopycat

variable {n : Nat}

/-- `change_keyreg_state`: set or clear the bit of the key in row `y`, column `x`. -/
def changeKeyregState (kbRd : CArray UInt8 8) (y x state : UInt8) : CArray UInt8 8 :=
  if y > 7 ∨ x > 7 then kbRd
  else
    let mask : UInt8 := 1 <<< x
    if state ≠ 0 then kbRd.modify y.toNat fun b => b ||| mask
    else kbRd.modify y.toNat fun b => b &&& ~~~mask

/-- `cat_keyb`: the byte the guest reads at `0x80000a`. -/
def catKeyb (s : Machine n) : UInt8 :=
  if s.prCont = 0x09 then s.dip
  else match s.kbWr with
    | 0x01 => s.kbRd 0
    | 0x02 => s.kbRd 1
    | 0x04 => s.kbRd 2
    | 0x08 => s.kbRd 3
    | 0x10 => s.kbRd 4
    | 0x20 => s.kbRd 5
    | 0x40 => s.kbRd 6
    | 0x80 => s.kbRd 7
    | _ => 0xFF

end Kyacopycat
