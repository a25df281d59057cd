import StyleAudit.Text.Ranges

/-! Blank characters: those with the Unicode property White_Space. Besides the blanks of
ASCII they include the next-line control, the no-break spaces and the ideographic space,
but neither the zero-width characters nor the byte order mark. -/
namespace StyleAudit.Text

def blankRanges : List Range := [
  ⟨0x09, 0x0D⟩, ⟨0x20, 0x20⟩, ⟨0x85, 0x85⟩, ⟨0xA0, 0xA0⟩, ⟨0x1680, 0x1680⟩,
  ⟨0x2000, 0x200A⟩, ⟨0x2028, 0x2029⟩, ⟨0x202F, 0x202F⟩, ⟨0x205F, 0x205F⟩, ⟨0x3000, 0x3000⟩]

def isBlank (c : Char) : Bool := covers blankRanges c.toNat

theorem isBlank_iff (c : Char) : isBlank c = true ↔ ∃ r ∈ blankRanges, r.Holds c.toNat :=
  covers_iff (by decide : ascendsFrom 0 blankRanges = true) c.toNat

end StyleAudit.Text
