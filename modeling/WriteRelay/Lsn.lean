import Mathlib

/-! Log sequence numbers. Their text form belongs to the replication library, so the
spool only relies on reading back what it wrote. -/

instance linearOrderUInt64 : LinearOrder UInt64 where
  le_refl _ := UInt64.le_refl _
  le_trans _ _ _ := UInt64.le_trans
  le_antisymm _ _ := UInt64.le_antisymm
  le_total := UInt64.le_total
  lt_iff_le_not_ge _ _ := by rw [UInt64.not_le]; exact ⟨fun h => ⟨UInt64.le_of_lt h, h⟩, And.right⟩
  toDecidableLE := inferInstance

namespace WriteRelay

abbrev LSN := UInt64

/-- `LSN.String` and `ParseLSN` of the replication library. -/
structure LsnCodec where
  format : LSN → String
  parse : String → Option LSN
  parse_format : ∀ l, parse (format l) = some l

def LsnCodec.decimal : LsnCodec where
  format l := String.ofList (Nat.toDigits 10 l.toNat)
  parse s := some (UInt64.ofNat (Nat.ofDigitChars 10 s.toList 0))
  parse_format l := by
    rw [String.toList_ofList, Nat.ofDigitChars_toDigits (by decide) (by decide), UInt64.ofNat_toNat]

theorem lsn_zero_le (l : LSN) : 0 ≤ l := by
  rw [UInt64.le_iff_toNat_le]
  exact Nat.zero_le _

end WriteRelay
