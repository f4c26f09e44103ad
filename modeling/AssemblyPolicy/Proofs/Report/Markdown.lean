import AssemblyPolicy.Proofs.Text.Lines
import AssemblyPolicy.Report.Markdown

/-!
# The structure of reports in Markdown

The lines of a document are those of the heading, of the table and of the findings. Texts are inserted
as they are, so the structure is kept exactly if no name or path breaks its row and no text begins
another item (`Markdown.structure_kept_iff`).
-/

namespace AssemblyPolicy.Markdown

variable {c : Char} {cs ds cell : List Char} {xs : List String} {r : ReportView}
  {a : AssemblyVerdict} {as : List AssemblyVerdict} {f : FindingView} {fs : List FindingView}
  {rows items : List String} {s t : String}

/-! ### Cells of a row -/

/-- The parts of a row between bars. A backslash takes the next character with it. -/
def splitCells : List Char → List (List Char)
  | '\\' :: c :: rest => (splitCells rest).modifyHead fun cell => '\\' :: c :: cell
  | '|' :: rest => [] :: splitCells rest
  | c :: rest => (splitCells rest).modifyHead (c :: ·)
  | [] => [[]]

/-- The number of bars that no backslash takes. -/
def bars : List Char → Nat
  | '\\' :: _ :: rest => bars rest
  | '|' :: rest => bars rest + 1
  | _ :: rest => bars rest
  | [] => 0

lemma length_splitCells (cs : List Char) : (splitCells cs).length = bars cs + 1 := by
  induction cs using splitCells.induct <;> simp_all [splitCells, bars]

lemma bars_eq_zero (h : '|' ∉ cs) : bars cs = 0 := by
  induction cs using splitCells.induct <;> simp_all [bars]

lemma mem_modifyHead {g : List Char → List Char} {parts : List (List Char)}
    (h : cell ∈ parts.modifyHead g) : cell ∈ parts ∨ ∃ first ∈ parts, cell = g first := by
  cases parts with
  | nil => cases h
  | cons first parts =>
    rcases List.mem_cons.mp h with rfl | h
    · exact .inr ⟨first, List.mem_cons_self, rfl⟩
    · exact .inl (List.mem_cons_of_mem first h)

lemma mem_of_mem_splitCells (hcell : cell ∈ splitCells cs) (hc : c ∈ cell) : c ∈ cs := by
  induction cs using splitCells.induct generalizing cell with
  | case1 d rest ih =>
    rw [splitCells] at hcell
    rcases mem_modifyHead hcell with h | ⟨first, h, rfl⟩
    · exact .tail _ (.tail _ (ih h hc))
    · simp only [List.mem_cons] at hc ⊢
      exact hc.imp_right (.imp_right (ih h))
  | case2 rest ih =>
    rw [splitCells, List.mem_cons] at hcell
    rcases hcell with rfl | h
    · cases hc
    · exact .tail _ (ih h hc)
  | case3 d rest h₁ h₂ ih =>
    rw [splitCells.eq_3 d rest h₁ h₂] at hcell
    rcases mem_modifyHead hcell with h | ⟨first, h, rfl⟩
    · exact .tail _ (ih h hc)
    · rw [List.mem_cons] at hc ⊢
      exact hc.imp_right (ih h)
  | case4 => simp_all [splitCells]

/-- A backslash before a blank takes no bar. -/
lemma bars_append (hbar : c ≠ '|') (hslash : c ≠ '\\') (cs ds : List Char) :
    bars (cs ++ c :: ds) = bars cs + bars ds := by
  induction cs using splitCells.induct with
  | case1 d rest ih => simp [bars, ih]
  | case2 rest ih => simp [bars, ih]; omega
  | case3 d rest h₁ h₂ ih =>
    cases rest with
    | nil => by_cases hd : d = '\\' <;> simp_all [bars]
    | cons e rest =>
      have hd : d ≠ '\\' := fun hd => h₁ e rest hd rfl
      simp_all [bars]
  | case4 => simp [bars, hslash]

lemma splitCells_append (h : bars cs = 0) (ds : List Char) :
    splitCells (cs ++ ' ' :: '|' :: ds) = (cs ++ [' ']) :: splitCells ds := by
  induction cs using splitCells.induct with
  | case1 d rest ih => simp_all [splitCells, bars]
  | case2 rest ih => simp [bars] at h
  | case3 d rest h₁ h₂ ih =>
    cases rest with
    | nil => by_cases hd : d = '\\' <;> simp_all [splitCells]
    | cons e rest =>
      have hd : d ≠ '\\' := fun hd => h₁ e rest hd rfl
      simp_all [splitCells, bars]
  | case4 => simp [splitCells]

/-! ### Rows -/

/-- A row with some texts in its cells. -/
def rowOf (xs : List String) : List Char := '|' :: xs.flatMap fun x => ' ' :: (x.toList ++ [' ', '|'])

lemma splitCells_rowOf (h : ∀ x ∈ xs, bars x.toList = 0) :
    splitCells (rowOf xs) = [] :: ((xs.map fun x => ' ' :: (x.toList ++ [' '])) ++ [[]]) := by
  rw [rowOf, splitCells]
  congr 1
  induction xs with
  | nil => rfl
  | cons x xs ih =>
    obtain ⟨hx, hxs⟩ := List.forall_mem_cons.mp h
    have hbars : bars (' ' :: x.toList) = 0 := by simpa [bars] using hx
    have hcell := splitCells_append hbars (xs.flatMap fun x => ' ' :: (x.toList ++ [' ', '|']))
    rw [ih hxs] at hcell
    simpa using hcell

lemma bars_rowOf (xs : List String) :
    bars (rowOf xs) = (xs.map fun x => bars x.toList).sum + xs.length + 1 := by
  have hcells : bars (xs.flatMap fun x => ' ' :: (x.toList ++ [' ', '|'])) =
      (xs.map fun x => bars x.toList).sum + xs.length := by
    induction xs with
    | nil => rfl
    | cons x xs ih =>
      have hcell := bars_append (c := ' ') (by decide) (by decide) x.toList
        ('|' :: xs.flatMap fun x => ' ' :: (x.toList ++ [' ', '|']))
      simp [bars, ih] at hcell ⊢
      omega
  rw [rowOf, bars, hcells]

/-- The texts in the cells of a row. -/
def values (a : AssemblyVerdict) : List String :=
  [a.assembly.getD "?", code a.path.text, if a.accepted then "accepted" else "rejected",
    toString a.violations]

lemma toList_assemblyRow (a : AssemblyVerdict) : (assemblyRow a).toList = rowOf (values a) := by
  simp [assemblyRow, rowOf, values]

/-- The parts of a row, with what is outside of the outer bars. -/
def cells (row : String) : List String := (splitCells row.toList).map String.ofList

/-- What the row of a file should be read as: four cells, and nothing outside of the outer bars. -/
def rowCells (a : AssemblyVerdict) : List String :=
  "" :: ((values a).map fun value => " " ++ value ++ " ") ++ [""]

/-- A text that stays in its cell. -/
structure FitsCell (s : String) : Prop where
  noBreak : '\n' ∉ s.toList
  noBar : bars s.toList = 0

instance : DecidablePred FitsCell := fun s =>
  decidable_of_iff ('\n' ∉ s.toList ∧ bars s.toList = 0)
    ⟨fun ⟨h₁, h₂⟩ => ⟨h₁, h₂⟩, fun h => ⟨h.noBreak, h.noBar⟩⟩

lemma isDigit_of_mem_toString {n : Nat} (hc : c ∈ (toString n).toList) : c.isDigit = true := by
  rw [Nat.toString_eq_repr, Nat.toList_repr] at hc
  exact Nat.isDigit_of_mem_toDigits (by decide) le_rfl hc

lemma bars_code (s : String) : bars (code s).toList = bars s.toList := by
  have htext : (code s).toList = '`' :: (s.toList ++ ['`']) := by simp [code]
  rw [htext, bars, bars_append (by decide) (by decide)]
  · rfl
  · simp
  · simp

/-- The last two values stay in their cells. -/
lemma forall_values_bars_iff : (∀ x ∈ values a, bars x.toList = 0) ↔
    bars (a.assembly.getD "?").toList = 0 ∧ bars a.path.text.toList = 0 := by
  have hresult : bars (if a.accepted then "accepted" else "rejected").toList = 0 := by
    split_ifs <;> decide
  have hnumber : bars (toString a.violations).toList = 0 :=
    bars_eq_zero fun hbar => absurd (isDigit_of_mem_toString hbar) (by decide)
  simp only [values, List.forall_mem_cons, bars_code, hresult, hnumber,
    List.not_mem_nil, false_imp_iff, implies_true, and_true]

lemma notMem_assemblyRow (hname : '\n' ∉ (a.assembly.getD "?").toList)
    (hpath : '\n' ∉ a.path.text.toList) : '\n' ∉ (assemblyRow a).toList := by
  have hresult : '\n' ∉ (if a.accepted then "accepted" else "rejected").toList := by
    split_ifs <;> decide
  have hnumber : '\n' ∉ (toString a.violations).toList := fun hbreak =>
    absurd (isDigit_of_mem_toString hbreak) (by decide)
  have hcode : '\n' ∉ (code a.path.text).toList := by simp [code, hpath]
  have hvalues : ∀ x ∈ values a, '\n' ∉ x.toList := by
    simp only [values, List.forall_mem_cons]
    exact ⟨hname, hcode, hresult, hnumber, by simp⟩
  rw [toList_assemblyRow, rowOf]
  simpa using hvalues

lemma cells_assemblyRow_iff : cells (assemblyRow a) = rowCells a ↔
    ∀ x ∈ values a, bars x.toList = 0 := by
  constructor
  · intro h
    have hlength := congrArg List.length h
    rw [cells, List.length_map, length_splitCells, toList_assemblyRow, bars_rowOf] at hlength
    have hsum : ((values a).map fun x => bars x.toList).sum = 0 := by
      have hcells : (rowCells a).length = (values a).length + 2 := by simp [rowCells]
      omega
    simpa [List.sum_eq_zero_iff] using hsum
  · intro h
    rw [cells, toList_assemblyRow, splitCells_rowOf h]
    simp [rowCells, String.append_assoc]

/-! ### Lines of the document -/

lemma linesOf_line_append (s t : String) : linesOf (line s ++ t) = linesOf s ++ linesOf t :=
  linesOf_append s t

lemma linesOf_join_append (xs : List String) (t : String) :
    linesOf (String.join (xs.map line) ++ t) = xs.flatMap linesOf ++ linesOf t := by
  induction xs with
  | nil => simp
  | cons x xs ih =>
    rw [List.map_cons, String.join_cons, String.append_assoc, linesOf_line_append, ih,
      List.flatMap_cons, List.append_assoc]

lemma flatMap_linesOf (h : ∀ x ∈ xs, '\n' ∉ x.toList) : xs.flatMap linesOf = xs := by
  induction xs with
  | nil => rfl
  | cons x xs ih =>
    obtain ⟨hx, hxs⟩ := List.forall_mem_cons.mp h
    rw [List.flatMap_cons, linesOf_of_notMem hx, ih hxs, List.singleton_append]

/-- The lines of the heading with the sums. -/
def headingLines (r : ReportView) : List String := (linesOf (header r)).dropLast

lemma linesOf_header_append (r : ReportView) (t : String) :
    linesOf (header r ++ t) = headingLines r ++ linesOf t := by
  obtain ⟨s, hs⟩ : ∃ s, header r = line s := ⟨_, congrArg (_ ++ ·) (by decide : line "" = "\n")⟩
  have hlast : headingLines r = linesOf s := by
    have hempty : linesOf "" = [""] := by decide
    rw [headingLines, hs, ← String.append_empty (s := line s), linesOf_line_append, hempty,
      List.dropLast_concat]
  rw [hlast, hs, linesOf_line_append]

/-- The lines above the rows of the table. -/
def tableHeading : List String :=
  ["## Assemblies", "", "| Assembly | File | Result | Findings |", "|---|---|---|---|"]

lemma linesOf_assemblies_append (has : as ≠ []) (t : String) : linesOf (assemblies as ++ t) =
    tableHeading ++ ((as.map assemblyRow).flatMap linesOf ++ "" :: linesOf t) := by
  have hjoin : (as.map fun a => line (assemblyRow a)) = (as.map assemblyRow).map line := by
    rw [List.map_map]
    rfl
  have hempty : as.isEmpty = false := by simpa using has
  have hheading : tableHeading = linesOf "## Assemblies" ++ (linesOf "" ++
      (linesOf "| Assembly | File | Result | Findings |" ++ linesOf "|---|---|---|---|")) := by
    decide
  rw [assemblies, hempty, hjoin, hheading]
  simp only [Bool.false_eq_true, if_false, String.append_assoc, List.append_assoc,
    linesOf_line_append, linesOf_join_append]
  rfl

/-- The lines of a finding. -/
def itemLines (f : FindingView) : List String :=
  ("- [" ++ severityLabel f.severity ++ "] " ++ code (f.checkId.getD "") ++ " / " ++ code f.code ++
      ": " ++ f.message ++ f.location.elim "" place) ::
    (f.help.toList.map ("  - help: " ++ ·) ++ f.url.toList.map ("  - url: " ++ ·))

/-- A finding without the last line break. -/
def body (f : FindingView) : String := "\n".intercalate (itemLines f)

lemma findingItem_eq (f : FindingView) : findingItem f = line (body f) := by
  cases hhelp : f.help <;> cases hurl : f.url <;>
    simp [findingItem, body, itemLines, line, advice, hhelp, hurl, String.append_assoc]

/-- The lines above the findings. -/
def findingsHeading (fs : List FindingView) : List String :=
  if fs.isEmpty then ["No findings."] else ["## Findings", ""]

lemma linesOf_findings (fs : List FindingView) : linesOf (findings fs) =
    findingsHeading fs ++ ((fs.map body).flatMap linesOf ++ [""]) := by
  have hjoin : fs.map findingItem = (fs.map body).map line := by
    rw [List.map_map]
    exact List.map_congr_left fun f _ => findingItem_eq f
  rw [findings, findingsHeading, hjoin]
  cases fs with
  | nil => decide
  | cons f fs =>
    have hempty : linesOf "" = [""] := by decide
    have hheading : ["## Findings", ""] = linesOf "## Findings" ++ linesOf "" := by decide
    have hlines := linesOf_join_append ((f :: fs).map body) ""
    rw [String.append_empty, hempty] at hlines
    rw [List.isEmpty_cons, if_neg (by decide), if_neg (by decide), String.append_assoc,
      linesOf_line_append, linesOf_line_append, hlines, hheading, List.append_assoc]

/-- The lines of a document with a table are those of the heading, of the table with some rows, and of
the findings with some items. -/
def Divides (r : ReportView) (rows items : List String) : Prop :=
  linesOf (render r) = headingLines r ++ (tableHeading ++
    (rows ++ "" :: (findingsHeading r.findings ++ (items ++ [""]))))

/-- The rows of a table say what the files are, each with four cells. -/
def ShowsAssemblies (as : List AssemblyVerdict) (rows : List String) : Prop :=
  rows.map cells = as.map rowCells

lemma divides_flatMap (hne : r.assemblies ≠ []) : Divides r
    ((r.assemblies.map assemblyRow).flatMap linesOf) ((r.findings.map body).flatMap linesOf) := by
  rw [Divides, render, String.append_assoc, linesOf_header_append, linesOf_assemblies_append hne,
    linesOf_findings]

lemma mem_linesOf_render_of_row (hne : r.assemblies ≠ []) (ha : a ∈ r.assemblies)
    (h : s ∈ linesOf (assemblyRow a)) : s ∈ linesOf (render r) := by
  have hrow : s ∈ (r.assemblies.map assemblyRow).flatMap linesOf :=
    List.mem_flatMap.mpr ⟨_, List.mem_map_of_mem ha, h⟩
  rw [divides_flatMap hne]
  simp only [List.mem_append, hrow, true_or, or_true]

lemma mem_linesOf_render_of_item (hne : r.assemblies ≠ []) (hf : f ∈ r.findings)
    (h : s ∈ linesOf (body f)) : s ∈ linesOf (render r) := by
  have hitem : s ∈ (r.findings.map body).flatMap linesOf :=
    List.mem_flatMap.mpr ⟨_, List.mem_map_of_mem hf, h⟩
  rw [divides_flatMap hne]
  simp only [List.mem_append, List.mem_cons, hitem, true_or, or_true]

/-- Rows that read as the files have names and paths without line breaks. -/
lemma Divides.notMem (h : Divides r rows items) (hrows : ShowsAssemblies r.assemblies rows)
    (ha : a ∈ r.assemblies) :
    '\n' ∉ (a.assembly.getD "?").toList ∧ '\n' ∉ a.path.text.toList := by
  have hmem : rowCells a ∈ rows.map cells := by
    rw [hrows]
    exact List.mem_map_of_mem ha
  obtain ⟨row, hrow, hcells⟩ := List.mem_map.mp hmem
  have hline : row ∈ linesOf (render r) := by
    rw [h]
    simp [hrow]
  have hbreak : ∀ cell ∈ rowCells a, '\n' ∉ cell.toList := by
    intro cell hcell hc
    rw [← hcells, cells, List.mem_map] at hcell
    obtain ⟨part, hpart, rfl⟩ := hcell
    rw [String.toList_ofList] at hc
    exact notMem_of_mem_linesOf hline (mem_of_mem_splitCells hpart hc)
  have hname := hbreak (" " ++ a.assembly.getD "?" ++ " ") (by simp [rowCells, values])
  have hpath := hbreak (" " ++ code a.path.text ++ " ") (by simp [rowCells, values])
  exact ⟨by simpa using hname, by simpa [code] using hpath⟩

/-- If the rows read as the files, then they are the rows of the files, and the items are those of the
findings. -/
lemma Divides.eq (h : Divides r rows items) (hne : r.assemblies ≠ [])
    (hrows : ShowsAssemblies r.assemblies rows) :
    rows = r.assemblies.map assemblyRow ∧ items = (r.findings.map body).flatMap linesOf := by
  have hbreak : ∀ row ∈ r.assemblies.map assemblyRow, '\n' ∉ row.toList := by
    intro row hrow
    obtain ⟨a, ha, rfl⟩ := List.mem_map.mp hrow
    obtain ⟨hname, hpath⟩ := h.notMem hrows ha
    exact notMem_assemblyRow hname hpath
  have hdivides := divides_flatMap hne
  rw [flatMap_linesOf hbreak, Divides, h, List.append_cancel_left_eq,
    List.append_cancel_left_eq] at hdivides
  have hlength : rows.length = (r.assemblies.map assemblyRow).length := by
    simpa using congrArg List.length hrows
  obtain ⟨hrows', hrest⟩ := List.append_inj hdivides hlength
  exact ⟨hrows', by simpa using hrest⟩

/-- The table is read as the files if each name and path stays in its cell. -/
lemma exists_divides_iff (hne : r.assemblies ≠ []) (holds : List String → Prop) :
    (∃ rows items, Divides r rows items ∧ ShowsAssemblies r.assemblies rows ∧ holds items) ↔
      (∀ a ∈ r.assemblies, FitsCell (a.assembly.getD "?") ∧ FitsCell a.path.text) ∧
        holds ((r.findings.map body).flatMap linesOf) := by
  constructor
  · rintro ⟨rows, items, h, hrows, hitems⟩
    obtain ⟨rfl, rfl⟩ := h.eq hne hrows
    refine ⟨fun a ha => ?_, hitems⟩
    obtain ⟨hname, hpath⟩ := h.notMem hrows ha
    have hcells : cells (assemblyRow a) = rowCells a := by
      rw [ShowsAssemblies, List.map_map] at hrows
      exact List.map_inj_left.mp hrows a ha
    obtain ⟨hname', hpath'⟩ := forall_values_bars_iff.mp (cells_assemblyRow_iff.mp hcells)
    exact ⟨⟨hname, hname'⟩, hpath, hpath'⟩
  · rintro ⟨hfits, hitems⟩
    have hdivides := divides_flatMap hne
    rw [flatMap_linesOf] at hdivides
    · refine ⟨_, _, hdivides, ?_, hitems⟩
      rw [ShowsAssemblies, List.map_map]
      refine List.map_congr_left fun a ha => ?_
      obtain ⟨hname, hpath⟩ := hfits a ha
      exact cells_assemblyRow_iff.mpr (forall_values_bars_iff.mpr ⟨hname.noBar, hpath.noBar⟩)
    · intro row hrow
      obtain ⟨a, ha, rfl⟩ := List.mem_map.mp hrow
      obtain ⟨hname, hpath⟩ := hfits a ha
      exact notMem_assemblyRow hname.noBreak hpath.noBreak

/-! ### Items -/

/-- The texts that are inserted for a finding. -/
def texts (f : FindingView) : List String :=
  [f.checkId.getD "", f.code, f.message] ++
    f.location.elim [] (fun l => l.member.toList ++ [l.path.text]) ++ f.help.toList ++ f.url.toList

/-- The texts that are inserted for a finding, each with what stands before it. -/
def inserts (f : FindingView) : List (String × String) :=
  [("`", f.checkId.getD ""), ("` / `", f.code), ("`: ", f.message)] ++
    f.location.elim [] (fun l =>
      l.member.elim [(" (`", l.path.text)] (fun m => [(" (`", m), ("` in `", l.path.text)]) ++
        [("`)", "")]) ++
    f.help.toList.map (("\n  - help: ", ·)) ++ f.url.toList.map (("\n  - url: ", ·))

lemma body_eq (f : FindingView) :
    body f = "- [" ++ severityLabel f.severity ++ "] " ++ weave (inserts f) := by
  obtain ⟨severity, checkId, code', message, location, help, url⟩ := f
  apply String.toList_injective
  rcases location with _ | ⟨path, _ | member⟩ <;> cases help <;> cases url <;>
    simp [body, itemLines, inserts, weave, place, code]

/-- Where another item would begin. -/
def itemMark : List Char := "\n- [".toList

/-- All that stands before an inserted text. -/
def starts : List String :=
  ["`", "` / `", "`: ", " (`", "` in `", "`)", "\n  - help: ", "\n  - url: "]

lemma map_inserts_subset (f : FindingView) : (inserts f).map (·.1) ⊆ starts := by
  obtain ⟨severity, checkId, code', message, location, help, url⟩ := f
  rcases location with _ | ⟨path, _ | member⟩ <;> cases help <;> cases url <;>
    simp [inserts, starts]

lemma apart_of_mem_inserts {p : String × String} (hp : p ∈ inserts f) :
    Apart itemMark p.1.toList := by
  have hapart : ∀ start ∈ starts, Apart itemMark start.toList := by decide
  exact hapart p.1 (map_inserts_subset f (List.mem_map_of_mem hp))

lemma infix_body_iff : itemMark <:+: (body f).toList ↔ ∃ t ∈ texts f, itemMark <:+: t.toList := by
  have hstart : itemMark <:+: (body f).toList ↔ itemMark <:+: (weave (inserts f)).toList := by
    rw [body_eq, String.toList_append]
    cases f.severity <;> exact infix_append_left_iff (by decide) (by decide)
  have hne : itemMark ≠ [] := by decide
  rw [hstart, infix_weave_iff (by decide) fun p hp => apart_of_mem_inserts hp]
  obtain ⟨severity, checkId, code', message, location, help, url⟩ := f
  rcases location with _ | ⟨path, _ | member⟩ <;> cases help <;> cases url <;>
    simp [inserts, texts, hne]

/-- An item has one line that begins as items do, and more only if a text makes them. -/
lemma countP_item (f : FindingView) : 1 ≤ (linesOf (body f)).countP (beginsWith "- [") ∧
    ((linesOf (body f)).countP (beginsWith "- [") = 1 ↔
      ∀ t ∈ texts f, ¬ itemMark <:+: t.toList) := by
  have hbegins : beginsWith "- [" (body f) = true := by
    rw [body_eq, beginsWith_iff]
    simp
  obtain ⟨hle, hone⟩ := countP_linesOf (by decide) hbegins
  refine ⟨hle, hone.trans ((not_congr infix_body_iff).trans ?_)⟩
  simp

lemma length_le_countP_items (fs : List FindingView) :
    fs.length ≤ ((fs.map body).flatMap linesOf).countP (beginsWith "- [") := by
  induction fs with
  | nil => simp
  | cons f fs ih =>
    have hf := (countP_item f).1
    simp only [List.map_cons, List.flatMap_cons, List.countP_append, List.length_cons]
    omega

lemma countP_items_iff : ((fs.map body).flatMap linesOf).countP (beginsWith "- [") = fs.length ↔
    ∀ f ∈ fs, ∀ t ∈ texts f, ¬ itemMark <:+: t.toList := by
  induction fs with
  | nil => simp
  | cons f fs ih =>
    have hf := (countP_item f).1
    have hfs := length_le_countP_items fs
    rw [List.forall_mem_cons, ← ih, ← (countP_item f).2]
    simp only [List.map_cons, List.flatMap_cons, List.countP_append, List.length_cons]
    omega

lemma forall_itemLines_iff : (∀ l ∈ itemLines f, '\n' ∉ l.toList) ↔
    ∀ t ∈ texts f, '\n' ∉ t.toList := by
  have hlabel : '\n' ∉ (severityLabel f.severity).toList := by cases f.severity <;> decide
  obtain ⟨severity, checkId, code', message, location, help, url⟩ := f
  rcases location with _ | ⟨path, _ | member⟩ <;> cases help <;> cases url <;>
    simp_all [itemLines, texts, place, code, and_assoc]

/-- The lines of the items are those of the findings if no text breaks a line. -/
lemma flatMap_items_iff : (fs.map body).flatMap linesOf = fs.flatMap itemLines ↔
    ∀ f ∈ fs, ∀ t ∈ texts f, '\n' ∉ t.toList := by
  constructor
  · intro h f hf
    refine forall_itemLines_iff.mp fun l hl => ?_
    have hmem : l ∈ (fs.map body).flatMap linesOf := by
      rw [h]
      exact List.mem_flatMap.mpr ⟨f, hf, hl⟩
    obtain ⟨s, -, hline⟩ := List.mem_flatMap.mp hmem
    exact notMem_of_mem_linesOf hline
  · intro h
    rw [List.flatMap_map]
    refine List.flatMap_congr fun f hf => ?_
    exact linesOf_intercalate (forall_itemLines_iff.mpr (h f hf)) (List.cons_ne_nil _ _)

/-! ### The structure -/

/-- The document has a row for each file, which says what it should, and one line that begins as items
do for each finding. -/
def Structured (r : ReportView) : Prop :=
  ∃ rows items, Divides r rows items ∧ ShowsAssemblies r.assemblies rows ∧
    items.countP (beginsWith "- [") = r.findings.length

/-- The document is structured, and all lines of the findings are those of their items. -/
def Itemized (r : ReportView) : Prop :=
  ∃ rows items, Divides r rows items ∧ ShowsAssemblies r.assemblies rows ∧
    items = r.findings.flatMap itemLines

/-- The names and paths of the files stay in their cells. -/
def FitsTable (r : ReportView) : Prop :=
  ∀ a ∈ r.assemblies, FitsCell (a.assembly.getD "?") ∧ FitsCell a.path.text

instance : Decidable (FitsTable r) :=
  inferInstanceAs (Decidable (∀ a ∈ r.assemblies, _ ∧ _))

lemma structured_iff (hne : r.assemblies ≠ []) : Structured r ↔
    FitsTable r ∧ ∀ f ∈ r.findings, ∀ t ∈ texts f, ¬ itemMark <:+: t.toList := by
  rw [Structured, exists_divides_iff hne (·.countP (beginsWith "- [") = r.findings.length),
    countP_items_iff, FitsTable]

lemma itemized_iff (hne : r.assemblies ≠ []) : Itemized r ↔
    FitsTable r ∧ ∀ f ∈ r.findings, ∀ t ∈ texts f, '\n' ∉ t.toList := by
  rw [Itemized, exists_divides_iff hne (· = r.findings.flatMap itemLines), flatMap_items_iff,
    FitsTable]

/-- The structure is kept exactly if names and paths stay in their cells and no text begins another
item. Nothing is split exactly if no text breaks a line at all. -/
theorem structure_kept_iff (hne : r.assemblies ≠ []) :
    (Structured r ↔
      FitsTable r ∧ ∀ f ∈ r.findings, ∀ t ∈ texts f, ¬ itemMark <:+: t.toList) ∧
    (Itemized r ↔ FitsTable r ∧ ∀ f ∈ r.findings, ∀ t ∈ texts f, '\n' ∉ t.toList) :=
  ⟨structured_iff hne, itemized_iff hne⟩

namespace Forgery

/-- A finding on the file `mods/Evil.json`. -/
def finding (message : String) : FindingView :=
  ⟨.error, some "restriction.member", "prohibited_present", message,
    some ⟨⟨"mods/Evil.json"⟩, some "Plugin::Run()"⟩, none, none⟩

/-- A report on the file `mods/Evil.json`, which is rejected. -/
def report (name message : String) : ReportView :=
  ⟨.fail, "modtool", 1, [⟨⟨"mods/Evil.json"⟩, some name, false, 1⟩], [finding message]⟩

/-- Bars after backslashes and line breaks that begin no item do no harm. -/
theorem structured_escaped : (report "Evil\\|Mod" "Prohibited:\nno").assemblies ≠ [] ∧
    Structured (report "Evil\\|Mod" "Prohibited:\nno") := by
  have hne : (report "Evil\\|Mod" "Prohibited:\nno").assemblies ≠ [] := List.cons_ne_nil _ _
  exact ⟨hne, (structure_kept_iff hne).1.mpr ⟨by decide, by decide⟩⟩

/-- The name of a rejected file makes a row that says it was accepted. -/
def rowName : String := "Evil | `mods/Evil.json` | accepted | 0 |\n| Evil"

/-- The message of a finding makes another one. -/
def itemMessage : String := "Prohibited\n- [INFO] `a` / `b`: all is well"

theorem forged :
    (¬ Structured (report rowName "Prohibited") ∧
      "| Evil | `mods/Evil.json` | accepted | 0 |" ∈
        linesOf (render (report rowName "Prohibited"))) ∧
    ¬ Structured (report "Evil" itemMessage) ∧
      "- [INFO] `a` / `b`: all is well (`Plugin::Run()` in `mods/Evil.json`)" ∈
        linesOf (render (report "Evil" itemMessage)) := by
  have hne (name message : String) : (report name message).assemblies ≠ [] := List.cons_ne_nil _ _
  refine ⟨⟨?_, ?_⟩, ?_, ?_⟩
  · rw [structured_iff (hne _ _)]
    decide
  · refine mem_linesOf_render_of_row (hne _ _) List.mem_cons_self ?_
    decide +kernel
  · rw [structured_iff (hne _ _)]
    decide
  · refine mem_linesOf_render_of_item (hne _ _) List.mem_cons_self ?_
    decide +kernel

end Forgery

end AssemblyPolicy.Markdown
