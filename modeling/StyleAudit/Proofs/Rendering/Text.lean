import StyleAudit.Proofs.Audit.Filler
import StyleAudit.Proofs.Audit.Names
import StyleAudit.Rendering

/-! The text of an outcome. Names stand between quotes as they are, hence two reports could have
one text if their names held quotes. The names in a report on a source hold none, and its text
tells everything that the report says apart from lines. -/
namespace StyleAudit

open Reading (isPlainName isPlainName_iff)

theorem append_cons_inj {x y r t : List α} {mark : α} (left : mark ∉ x) (right : mark ∉ y) :
    x ++ mark :: r = y ++ mark :: t ↔ x = y ∧ r = t := by
  constructor
  · intro same
    rcases List.append_eq_append_iff.mp same with ⟨more, rfl, rest⟩ | ⟨more, rfl, rest⟩
    · cases more with
      | nil => simpa using rest
      | cons first more => simp_all
    · cases more with
      | nil => simpa using rest.symm
      | cons first more => simp_all
  · rintro ⟨rfl, rfl⟩
    rfl

/-- Lines that hold no line break are told apart by their text. -/
theorem eq_of_flatMap_lines {lines others : List (List Char)} (flat : ∀ line ∈ lines, '\n' ∉ line)
    (even : ∀ line ∈ others, '\n' ∉ line)
    (same : lines.flatMap (· ++ ['\n']) = others.flatMap (· ++ ['\n'])) : lines = others := by
  induction lines generalizing others with
  | nil => cases others <;> simp_all
  | cons line lines ih =>
    cases others with
    | nil => simp at same
    | cons other others =>
      rw [List.forall_mem_cons] at flat even
      simp only [List.flatMap_cons, List.append_assoc, List.singleton_append] at same
      obtain ⟨first, rest⟩ := (append_cons_inj flat.1 even.1).mp same
      rw [first, ih flat.2 even.2 rest]

theorem map_inj_on {f : α → β} {items others : List α}
    (apart : ∀ x ∈ items, ∀ y ∈ others, f x = f y → x = y) (same : items.map f = others.map f) :
    items = others := by
  induction items generalizing others with
  | nil => exact (List.map_eq_nil_iff.mp same.symm).symm
  | cons item items ih =>
    cases others with
    | nil => simp at same
    | cons other others =>
      obtain ⟨first, rest⟩ := List.cons.inj same
      rw [apart item List.mem_cons_self other List.mem_cons_self first]
      rw [ih (fun x among y within => apart x (List.mem_cons_of_mem _ among) y
        (List.mem_cons_of_mem _ within)) rest]

theorem mark_notMem_of_plain {name : String} (plain : isPlainName name = true) {mark : Char}
    (sign : mark.isAlphanum = false) (other : mark ≠ '_') : mark ∉ name.toList := by
  intro member
  rcases (isPlainName_iff.mp plain).2 mark member with letter | underscore
  · simp [sign] at letter
  · exact other underscore

theorem quote_notMem {name : String} (plain : isPlainName name = true) : '\'' ∉ name.toList :=
  mark_notMem_of_plain plain (by decide) (by decide)

theorem lineBreak_notMem {name : String} (plain : isPlainName name = true) : '\n' ∉ name.toList :=
  mark_notMem_of_plain plain (by decide) (by decide)

def quoted (name : String) : List Char := '\'' :: (name.toList ++ ['\''])

def quotedAfter (names : List String) : List Char :=
  names.flatMap fun name => ',' :: ' ' :: quoted name

theorem intercalate_cons (separator first : List α) (rest : List (List α)) :
    separator.intercalate (first :: rest) = first ++ rest.flatMap (separator ++ ·) := by
  induction rest generalizing first with
  | nil => simp
  | cons second rest ih =>
    rw [List.intercalate_cons_cons, ih, List.flatMap_cons, List.append_assoc, List.append_assoc]

theorem toList_quotedNames_cons (name : String) (names : List String) :
    (quotedNames (name :: names)).toList =
      '[' :: (quoted name ++ (quotedAfter names ++ [']'])) := by
  have enclosed (name : String) : ("'" ++ name ++ "'").toList = quoted name := by
    simp [quoted]
  have characters : (quotedNames (name :: names)).toList =
      '[' :: ([',', ' '].intercalate ((name :: names).map quoted) ++ [']']) := by
    rw [quotedNames, String.toList_append, String.toList_append, String.toList_intercalate,
      List.map_map]
    simp only [Function.comp_def, enclosed]
    rfl
  rw [characters, List.map_cons, intercalate_cons, List.flatMap_map, List.append_assoc]
  rfl

theorem quotedAfter_inj {names others : List String}
    (plain : ∀ name ∈ names, isPlainName name = true)
    (plainOthers : ∀ name ∈ others, isPlainName name = true)
    (same : quotedAfter names ++ [']'] = quotedAfter others ++ [']']) : names = others := by
  induction names generalizing others with
  | nil =>
    cases others with
    | nil => rfl
    | cons other others => simp [quotedAfter] at same
  | cons name names ih =>
    cases others with
    | nil => simp [quotedAfter] at same
    | cons other others =>
      rw [List.forall_mem_cons] at plain plainOthers
      simp only [quotedAfter, List.flatMap_cons, quoted, List.cons_append, List.append_assoc,
        List.cons.injEq, true_and, List.nil_append] at same
      obtain ⟨first, rest⟩ :=
        (append_cons_inj (quote_notMem plain.1) (quote_notMem plainOthers.1)).mp same
      rw [String.toList_inj.mp first, ih plain.2 plainOthers.2 rest]

theorem quotedNames_inj {names others : List String}
    (plain : ∀ name ∈ names, isPlainName name = true)
    (plainOthers : ∀ name ∈ others, isPlainName name = true)
    (same : quotedNames names = quotedNames others) : names = others := by
  have characters := congrArg String.toList same
  cases names with
  | nil =>
    cases others with
    | nil => rfl
    | cons other others =>
      rw [toList_quotedNames_cons] at characters
      simp [quotedNames, quoted] at characters
  | cons name names =>
    cases others with
    | nil =>
      rw [toList_quotedNames_cons] at characters
      simp [quotedNames, quoted] at characters
    | cons other others =>
      rw [toList_quotedNames_cons, toList_quotedNames_cons] at characters
      refine quotedAfter_inj plain plainOthers ?_
      simpa [quotedAfter] using characters

theorem lineBreak_notMem_quotedNames {names : List String}
    (plain : ∀ name ∈ names, isPlainName name = true) : '\n' ∉ (quotedNames names).toList := by
  have flat {name : String} (member : name ∈ names) : '\n' ∉ quoted name := by
    simp [quoted, lineBreak_notMem (plain name member)]
  cases names with
  | nil => decide
  | cons name names =>
    have after : '\n' ∉ quotedAfter names := by
      intro member
      obtain ⟨name, among, within⟩ := List.mem_flatMap.mp member
      simp [flat (List.mem_cons_of_mem _ among)] at within
    rw [toList_quotedNames_cons]
    simp [flat List.mem_cons_self, after]

def findingLine (group property : String) : String :=
  "Duplicate prop '" ++ property ++ "' in '" ++ group ++ "'"

def summaryLine (groups : List String) : String := "Top-level duplicates: " ++ quotedNames groups

/-- The text line by line, without the line breaks. It does not tell the lines of findings. -/
def Report.lines (report : Report) : List String :=
  summaryLine report.names.1 :: report.names.2.map fun names => findingLine names.1 names.2

theorem toList_append_append (a b c d e : String) : (a ++ b ++ c ++ d ++ e).toList =
    a.toList ++ (b.toList ++ (c.toList ++ (d.toList ++ e.toList))) := by
  simp only [String.toList_append, List.append_assoc]

theorem toList_summaryLine (groups : List String) : (summaryLine groups).toList =
    "Top-level duplicates: ".toList ++ (quotedNames groups).toList :=
  String.toList_append

theorem toList_findingLine (group property : String) : (findingLine group property).toList =
    "Duplicate prop '".toList ++
      (property.toList ++ '\'' :: (" in '".toList ++ (group.toList ++ ['\'']))) :=
  toList_append_append _ _ _ _ _

theorem Finding.toList_text (finding : Finding) :
    finding.text.toList = (findingLine finding.group finding.property).toList ++ ['\n'] := by
  have characters : finding.text.toList = "Duplicate prop '".toList ++ (finding.property.toList ++
      '\'' :: (" in '".toList ++ (finding.group.toList ++ ['\'', '\n']))) :=
    toList_append_append _ _ _ _ _
  rw [characters, toList_findingLine]
  simp only [List.append_assoc, List.cons_append, List.nil_append]

theorem Report.toList_text (report : Report) :
    report.text.toList = report.lines.flatMap fun line => line.toList ++ ['\n'] := by
  have append (out : String) (findings : List Finding) :
      (findings.foldl (fun out finding => out ++ finding.text) out).toList =
        out.toList ++ findings.flatMap fun finding =>
          (findingLine finding.group finding.property).toList ++ ['\n'] := by
    induction findings generalizing out with
    | nil => simp
    | cons finding findings ih =>
      rw [List.foldl_cons, ih, String.toList_append, Finding.toList_text, List.flatMap_cons,
        List.append_assoc]
  have ended (line : String) : (line ++ "\n").toList = line.toList ++ ['\n'] := String.toList_append
  rw [Report.text, append, Report.lines, List.flatMap_cons, names, List.map_map, List.flatMap_map]
  exact congrArg (· ++ _) (ended _)

theorem findingLine_inj {group property other another : String}
    (plain : isPlainName property = true) (plainOther : isPlainName another = true)
    (same : findingLine group property = findingLine other another) :
    group = other ∧ property = another := by
  have characters := congrArg String.toList same
  rw [toList_findingLine, toList_findingLine, List.append_cancel_left_eq] at characters
  obtain ⟨properties, rest⟩ :=
    (append_cons_inj (quote_notMem plain) (quote_notMem plainOther)).mp characters
  rw [List.append_cancel_left_eq, List.append_cancel_right_eq] at rest
  exact ⟨String.toList_inj.mp rest, String.toList_inj.mp properties⟩

theorem lineBreak_notMem_findingLine {group property : String} (plain : isPlainName group = true)
    (plainOther : isPlainName property = true) : '\n' ∉ (findingLine group property).toList := by
  have constant : '\n' ∉ "Duplicate prop '".toList ∧ '\n' ∉ " in '".toList ∧ '\n' ∉ ['\''] := by
    decide
  rw [toList_findingLine]
  simp only [List.mem_append, List.mem_cons, constant, lineBreak_notMem plain,
    lineBreak_notMem plainOther, or_self, Char.reduceEq, not_false_eq_true]

namespace Report

variable {report other : Report}

theorem plain_names (plain : report.IsPlain) {names : String × String}
    (member : names ∈ report.names.2) :
    isPlainName names.1 = true ∧ isPlainName names.2 = true := by
  obtain ⟨finding, among, rfl⟩ := List.mem_map.mp member
  exact plain.findings finding among

theorem flat_lines (plain : report.IsPlain) : ∀ line ∈ report.lines, '\n' ∉ line.toList := by
  intro line member
  rcases List.mem_cons.mp member with rfl | member
  · have constant : '\n' ∉ "Top-level duplicates: ".toList := by decide
    have groups : '\n' ∉ (quotedNames report.names.1).toList :=
      lineBreak_notMem_quotedNames plain.groups
    rw [toList_summaryLine, List.mem_append, not_or]
    exact ⟨constant, groups⟩
  · obtain ⟨names, among, rfl⟩ := List.mem_map.mp member
    obtain ⟨group, property⟩ := plain_names plain among
    exact lineBreak_notMem_findingLine group property

/-- Reports with plain names have one text if they agree apart from lines. -/
theorem text_eq_iff (plain : report.IsPlain) (plainOther : other.IsPlain) :
    report.text = other.text ↔ report.names = other.names := by
  rw [← String.toList_inj, toList_text, toList_text]
  constructor
  · intro same
    have lines : report.lines = other.lines := by
      refine map_inj_on (fun _ _ _ _ => String.toList_inj.mp)
        (eq_of_flatMap_lines ?_ ?_ ?_)
      · simpa using flat_lines plain
      · simpa using flat_lines plainOther
      · rw [List.flatMap_map, List.flatMap_map, same]
    obtain ⟨summary, findings⟩ := List.cons.inj lines
    refine Prod.ext ?groups ?properties
    case groups =>
      refine quotedNames_inj plain.groups plainOther.groups ?_
      have characters := congrArg String.toList summary
      rw [toList_summaryLine, toList_summaryLine, List.append_cancel_left_eq] at characters
      exact String.toList_inj.mp characters
    case properties =>
      refine map_inj_on (fun x among y within same => ?_) findings
      obtain ⟨groups, properties⟩ :=
        findingLine_inj (plain_names plain among).2 (plain_names plainOther within).2 same
      exact Prod.ext groups properties
  · intro same
    rw [lines, lines, same]

/-- Other names than plain ones could be taken for several. -/
example : (⟨["a', 'b"], []⟩ : Report).text = (⟨["a", "b"], []⟩ : Report).text := by decide

theorem text_eq_clean_iff (plain : report.IsPlain) :
    report.text = "Top-level duplicates: []\n" ↔ report.isClean = true := by
  have plainClean : (⟨[], []⟩ : Report).IsPlain := ⟨nofun, nofun⟩
  have clean : (⟨[], []⟩ : Report).text = "Top-level duplicates: []\n" := by decide
  rw [← clean, text_eq_iff plain plainClean]
  simp [names, isClean]

end Report

namespace Outcome

theorem toList_text_notFound (marker : String) :
    (notFound.text marker).toList = "Could not find ".toList ++ (marker.toList ++ ['\n']) := by
  have parts (a b c : String) : (a ++ b ++ c).toList = a.toList ++ (b.toList ++ c.toList) := by
    simp only [String.toList_append, List.append_assoc]
  exact parts _ _ _

theorem text_notFound_inj {marker other : String}
    (same : notFound.text marker = notFound.text other) : marker = other := by
  have characters := congrArg String.toList same
  rw [toList_text_notFound, toList_text_notFound, List.append_cancel_left_eq,
    List.append_cancel_right_eq] at characters
  exact String.toList_inj.mp characters

theorem text_notFound_ne (report : Report) (marker other : String) :
    notFound.text marker ≠ (scanned report).text other := by
  intro same
  have first := congrArg (·.toList.head?) same
  have missing : (notFound.text marker).toList.head? = some 'C' := by
    rw [toList_text_notFound]
    rfl
  have found : ((scanned report).text other).toList.head? = some 'T' := by
    have summary : (summaryLine report.names.1).toList.head? = some 'T' := by
      rw [toList_summaryLine]
      rfl
    change report.text.toList.head? = some 'T'
    rw [Report.toList_text, Report.lines, List.flatMap_cons, List.append_assoc, List.head?_append,
      summary, Option.some_or]
  simp [missing, found] at first

/-- Outcomes of audits have one text if they say the same apart from lines, the marker that was
not found included. -/
theorem text_eq_iff {outcome other : Outcome} {marker another : String}
    (plain : ∀ report, outcome = .scanned report → report.IsPlain)
    (plainOther : ∀ report, other = .scanned report → report.IsPlain) :
    outcome.text marker = other.text another ↔
      outcome.names = other.names ∧ (outcome = .notFound → marker = another) := by
  cases outcome with
  | notFound =>
    cases other with
    | notFound =>
      constructor
      · exact fun same => ⟨rfl, fun _ => text_notFound_inj same⟩
      · rintro ⟨_, same⟩
        rw [same rfl]
    | scanned report => simp [text_notFound_ne, names]
  | scanned report =>
    cases other with
    | notFound => simp [(text_notFound_ne _ _ _).symm, names]
    | scanned twin =>
      have reports : (scanned report).text marker = (scanned twin).text another ↔
          report.names = twin.names := Report.text_eq_iff (plain report rfl) (plainOther twin rfl)
      refine reports.trans ?_
      simp [names]

end Outcome

/-- The texts of two audits tell their outcomes apart, up to lines. -/
theorem Audit.exists_text_eq_iff (source marker other another : String) : ∃ outcome twin,
    (ofSource source marker).result = .ok outcome ∧ (ofSource other another).result = .ok twin ∧
    (outcome.text marker = twin.text another ↔
      outcome.names = twin.names ∧ (outcome = .notFound → marker = another)) ∧
    ∀ report, outcome = .scanned report →
      (∃ lines : List String, lines.length = 1 + report.repeatedProperties.length ∧
        (∀ line ∈ lines, '\n' ∉ line.toList) ∧
        (outcome.text marker).toList = lines.flatMap fun line => line.toList ++ ['\n']) ∧
      (outcome.text marker = "Top-level duplicates: []\n" ↔ outcome.hasRepeats = false) := by
  obtain ⟨outcome, first⟩ := exists_result source marker
  obtain ⟨twin, second⟩ := exists_result other another
  refine ⟨outcome, twin, first, second, Outcome.text_eq_iff ?_ ?_, ?_⟩
  · rintro report rfl
    exact isPlain_of_scanned first
  · rintro report rfl
    exact isPlain_of_scanned second
  · rintro report rfl
    have plain := isPlain_of_scanned first
    refine ⟨⟨report.lines, ?_, report.flat_lines plain, report.toList_text⟩, ?_⟩
    · rw [Report.lines, List.length_cons, Report.names, List.length_map, List.length_map,
        Nat.add_comm]
    · rw [Outcome.hasRepeats, Bool.not_eq_false']
      exact Report.text_eq_clean_iff plain

def repeating (gap : String) : String :=
  "make(\x7ba: \x7bp: 1," ++ gap ++ "p: 2\x7d, a: \x7b\x7d\x7d)"

/-- The texts leave out the line, which alone tells the two sources apart. -/
theorem Audit.exists_text_eq_iff_repeating : ∃ outcome twin,
    (ofSource (repeating " ") "make").result = .ok outcome ∧
    (ofSource (repeating "\n") "make").result = .ok twin ∧
    outcome = .scanned ⟨["a"], [⟨"a", "p", 1⟩]⟩ ∧ twin = .scanned ⟨["a"], [⟨"a", "p", 2⟩]⟩ ∧
    outcome.text "make" = "Top-level duplicates: ['a']\nDuplicate prop 'p' in 'a'\n" ∧
    outcome.text "make" = twin.text "make" := by
  let entries (again : Nat) : Literal.Entries :=
    .object "a" 1 1 (.plain "p" 1 (.plain "p" again .nil)) (.object "a" again again .nil .nil)
  have reported {source : String} {again : Nat}
      (read : Outline.ofSource? source "make" = some ((entries again).outline 1)) :
      (ofSource source "make").result = .ok (.scanned ⟨["a"], [⟨"a", "p", again⟩]⟩) :=
    Literal.Entries.result_of_outline read
  have near : Outline.ofSource? (repeating " ") "make" = some ((entries 1).outline 1) := by
    decide +kernel
  have far : Outline.ofSource? (repeating "\n") "make" = some ((entries 2).outline 1) := by
    decide +kernel
  obtain ⟨outcome, twin, first, second, same, -⟩ :=
    exists_text_eq_iff (repeating " ") "make" (repeating "\n") "make"
  obtain rfl := Except.ok.inj (first.symm.trans (reported near))
  obtain rfl := Except.ok.inj (second.symm.trans (reported far))
  exact ⟨_, _, first, second, rfl, rfl, by decide +kernel, same.mpr ⟨rfl, nofun⟩⟩

end StyleAudit
