/-! Character classes given as tables of code point ranges. The ranges of a table ascend
without touching, so a search may stop at the first range that starts too high. -/
namespace StyleAudit.Text

/-- Ends included. -/
structure Range where
  low : Nat
  high : Nat
  deriving DecidableEq, Repr

def Range.Holds (r : Range) (n : Nat) : Prop := r.low ≤ n ∧ n ≤ r.high

def covers : List Range → Nat → Bool
  | [], _ => false
  | r :: rest, n => if n < r.low then false else n ≤ r.high || covers rest n

/-- No range is empty, and each starts at `floor` or above and beyond the one before it. -/
def ascendsFrom (floor : Nat) : List Range → Bool
  | [] => true
  | r :: rest => floor ≤ r.low && r.low ≤ r.high && ascendsFrom (r.high + 1) rest

theorem floor_le_low {table : List Range} {floor : Nat} (ordered : ascendsFrom floor table = true)
    {r : Range} (member : r ∈ table) : floor ≤ r.low := by
  induction table generalizing floor with
  | nil => cases member
  | cons first rest ih =>
    simp only [ascendsFrom, Bool.and_eq_true, decide_eq_true_eq] at ordered
    rcases List.mem_cons.mp member with rfl | member
    · exact ordered.1.1
    · have := ih ordered.2 member
      omega

theorem covers_iff {table : List Range} {floor : Nat} (ordered : ascendsFrom floor table = true)
    (n : Nat) : covers table n = true ↔ ∃ r ∈ table, r.Holds n := by
  induction table generalizing floor with
  | nil => simp [covers]
  | cons first rest ih =>
    simp only [ascendsFrom, Bool.and_eq_true, decide_eq_true_eq] at ordered
    unfold covers
    split
    next below =>
      constructor
      · intro impossible; cases impossible
      · rintro ⟨r, member, low, high⟩
        rcases List.mem_cons.mp member with rfl | member
        · omega
        · have := floor_le_low ordered.2 member
          omega
    next above =>
      simp only [Bool.or_eq_true, decide_eq_true_eq, ih ordered.2, List.mem_cons, Range.Holds]
      constructor
      · rintro (high | ⟨r, member, holds⟩)
        · exact ⟨first, .inl rfl, by omega, high⟩
        · exact ⟨r, .inr member, holds⟩
      · rintro ⟨r, rfl | member, holds⟩
        · exact .inl holds.2
        · exact .inr ⟨r, member, holds⟩

end StyleAudit.Text
