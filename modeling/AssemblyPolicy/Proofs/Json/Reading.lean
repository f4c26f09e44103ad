import AssemblyPolicy.Json.Source
import AssemblyPolicy.Proofs.Json.Token

/-!
# Reading what was printed

A printed value, on one line or on many, is read as a source without faults that shows the value
(`exists_shows_ofText`). Doubles are left out, and integers beyond 64 bits.
-/

namespace AssemblyPolicy.Json

/-! ### Values that are kept -/

/-- The members of a record that are there. -/
def present (entries : List (String × Option Json)) : List (String × Json) :=
  entries.filterMap fun m => m.2.map fun v => (m.1, v)

variable {entries : List (String × Option Json)}

lemma mem_present {key : String} {v : Json} (h : (key, some v) ∈ entries) :
    (key, v) ∈ present entries :=
  List.mem_filterMap.mpr ⟨_, h, rfl⟩

lemma forall_present {p : String × Json → Prop}
    (h : ∀ e ∈ entries, ∀ v, e.2 = some v → p (e.1, v)) : ∀ m ∈ present entries, p m := by
  intro m hm
  obtain ⟨e, he, heq⟩ := List.mem_filterMap.mp hm
  obtain ⟨v, hv, rfl⟩ := Option.map_eq_some_iff.mp heq
  exact h e he v hv

/-- A value without doubles, whose integers fit 64 bits. -/
inductive Exact : Json → Prop
  | null : Exact .null
  | bool (b : Bool) : Exact (.bool b)
  | number {n : Number} (h : n.Exact) : Exact (.number n)
  | string (s : String) : Exact (.string s)
  | array {items : List Json} (h : ∀ v ∈ items, Exact v) : Exact (.array items)
  | object {members : List (String × Json)} (h : ∀ m ∈ members, Exact m.2) : Exact (.object members)

lemma exact_nat {n : Nat} (h : n < UInt64.size) : Exact (.nat n) := by
  have hsize : UInt64.size = 2 ^ 64 := rfl
  exact .number ⟨by omega, by omega⟩

lemma exact_u32 {n : Nat} (h : n < UInt32.size) : Exact (.nat n) := exact_nat (h.trans (by decide))

lemma exact_array_iff {items : List Json} : Exact (.array items) ↔ ∀ v ∈ items, Exact v := by
  constructor
  · intro hv
    cases hv with
    | array h => exact h
  · exact .array

lemma exact_record_iff :
    Exact (.record entries) ↔ ∀ e ∈ entries, ∀ v, e.2 = some v → Exact v := by
  constructor
  · rintro hv ⟨key, _⟩ he v rfl
    cases hv with
    | object h => exact h (key, v) (mem_present he)
  · intro h
    exact .object (forall_present h)

/-! ### Sources that show a value -/

mutual

/-- A source without faults that has a value, wherever it stands. -/
inductive Source.Shows : Source → Json → Prop
  | null (span : Span) : Source.Shows (.null span) .null
  | bool (b : Bool) (span : Span) : Source.Shows (.bool b span) (.bool b)
  | number (n : Number) (span : Span) : Source.Shows (.number n span) (.number n)
  | string (s : String) (span : Span) : Source.Shows (.string s span) (.string s)
  | array {is : List Source} {items : List Json} (span : Span)
      (h : List.Forall₂ Source.Shows is items) : Source.Shows (.array is none span) (.array items)
  | object {ms : List (Member Source)} {members : List (String × Json)} (span : Span)
      (h : List.Forall₂ Member.Shows ms members) :
      Source.Shows (.object ms none span) (.object members)

/-- A member without faults that has a key and a value. -/
inductive Member.Shows : Member Source → String × Json → Prop
  | mk (key : String) (afterKey : List Char) {s : Source} {v : Json} (h : s.Shows v) :
      Member.Shows ⟨.ok key, afterKey, s⟩ (key, v)

end

mutual

/-- A value that is presented as a source is shown. -/
theorem Source.shows_ofJson : ∀ v : Json, (Source.ofJson v).Shows v
  | .null => .null _
  | .bool b => .bool b _
  | .number n => .number n _
  | .string s => .string s _
  | .array items => .array _ (forall₂_shows_ofItems items)
  | .object members => .object _ (forall₂_shows_ofMemberList members)

theorem forall₂_shows_ofItems : ∀ items : List Json,
    List.Forall₂ Source.Shows (ofItems items) items
  | [] => .nil
  | v :: rest => .cons (Source.shows_ofJson v) (forall₂_shows_ofItems rest)

theorem forall₂_shows_ofMemberList : ∀ members : List (String × Json),
    List.Forall₂ Member.Shows (ofMemberList members) members
  | [] => .nil
  | (k, v) :: rest => .cons (.mk k [] (Source.shows_ofJson v)) (forall₂_shows_ofMemberList rest)

end

/-! ### Single tokens -/

variable {e e' : Expecting} {frames frames' : List Frame} {text rest : List Char} {t : Token}

/-- Where a value may stand. -/
def Expecting.IsValue (e : Expecting) : Prop := e = .value ∨ e = .item ∨ e = .itemOrEnd

lemma advance_of_valueToken {span : Span} {p : Progress} (he : e.IsValue)
    (h : valueToken? frames t span = some p) : advance e frames t span = p := by
  rcases he with rfl | rfl | rfl
  · simp [advance, orBreakOff, h]
  · simp [advance, orBreakOff, h]
  · rw [advance]
    · rw [h]
      rfl
    · rintro _ _ _ rfl
      cases h

lemma readTokens_of_leads (hlead : Leads text t rest)
    (h : advance e frames t ⟨text, rest⟩ = .ok (e', frames')) :
    readTokens e frames (tokens text) = readTokens e' frames' (tokens rest) := by
  rw [hlead.tokens_eq, readTokens, h]

lemma readTokens_of_valueToken (he : e.IsValue) (hlead : Leads text t rest)
    (h : valueToken? frames t ⟨text, rest⟩ = some (.ok (e', frames'))) :
    readTokens e frames (tokens text) = readTokens e' frames' (tokens rest) :=
  readTokens_of_leads hlead (advance_of_valueToken he h)

/-! ### Layouts -/

lemma renderItems_eq_map (layout : Layout) (items : List Json) :
    renderItems layout items = items.map (render layout) := by
  induction items with
  | nil => rfl
  | cons v items ih => rw [renderItems, ih, List.map_cons]

/-- A printed member. -/
def renderMember (layout : Layout) (m : String × Json) : List Char :=
  quote m.1 ++ layout.colon ++ render layout m.2

lemma renderMembers_eq_map (layout : Layout) (members : List (String × Json)) :
    renderMembers layout members = members.map (renderMember layout) := by
  induction members with
  | nil => rfl
  | cons m members ih => rw [renderMembers, ih, List.map_cons, renderMember]

lemma tokens_lineBreak (layout : Layout) (cs : List Char) :
    tokens (layout.lineBreak ++ cs) = tokens cs := by
  apply tokens_append_of_spaces
  intro c hc
  cases layout with
  | compact => cases hc
  | pretty n =>
    rcases List.mem_cons.mp hc with rfl | hc
    · rfl
    · rw [List.eq_of_mem_replicate hc]
      rfl

lemma separated_lineBreak (layout : Layout) (h : Separated rest) :
    Separated (layout.lineBreak ++ rest) := by
  cases layout with
  | compact => exact h
  | pretty n => exact .inr (.inr (.inr rfl))

/-- The parts of a container after the first one, and its end. -/
def Layout.tail (layout : Layout) (stop : Char) (parts : List (List Char)) (rest : List Char) :
    List Char :=
  parts.flatMap (',' :: layout.inner.lineBreak ++ ·) ++ (layout.lineBreak ++ stop :: rest)

lemma enclose_cons (layout : Layout) (start stop : Char) (part : List Char)
    (parts : List (List Char)) (rest : List Char) :
    layout.enclose start stop (part :: parts) ++ rest =
      start :: (layout.inner.lineBreak ++ (part ++ layout.tail stop parts rest)) := by
  simp [Layout.enclose, Layout.tail]

lemma tail_cons (layout : Layout) (stop : Char) (part : List Char) (parts : List (List Char))
    (rest : List Char) : layout.tail stop (part :: parts) rest =
      ',' :: (layout.inner.lineBreak ++ (part ++ layout.tail stop parts rest)) := by
  simp [Layout.tail]

lemma separated_tail (layout : Layout) {stop : Char} (hstop : stop = ']' ∨ stop = '\x7d')
    (parts : List (List Char)) (rest : List Char) : Separated (layout.tail stop parts rest) := by
  cases parts with
  | nil => exact separated_lineBreak layout (.inr (hstop.imp_right .inl))
  | cons part parts =>
    rw [tail_cons]
    exact .inl rfl

/-! ### Values -/

/-- Read the rest of a text when a value has been read. -/
def resume (s : Source) (frames : List Frame) (rest : List Char) : Document :=
  readTokens (afterValue s frames).1 (afterValue s frames).2 (tokens rest)

/-- Where a printed value stands, a source that shows it is read. -/
def ReadBack (layout : Layout) (v : Json) : Prop :=
  ∀ e frames rest, e.IsValue → Separated rest → ∃ s : Source, s.Shows v ∧
    readTokens e frames (tokens (render layout v ++ rest)) = resume s frames rest

variable {layout : Layout}

lemma readBack_of_leads {v : Json} {s : Span → Source} (hs : ∀ span, (s span).Shows v)
    (hlead : ∀ rest, Separated rest → Leads (render layout v ++ rest) t rest)
    (h : ∀ frames span, valueToken? frames t span = some (.ok (afterValue (s span) frames))) :
    ReadBack layout v := by
  intro e frames rest he hrest
  exact ⟨_, hs _, readTokens_of_valueToken he (hlead rest hrest) (h _ _)⟩

/-! ### Arrays -/

/-- The items after the first one, and the end of the array. -/
lemma exists_readTokens_items {items : List Json} (hitems : ∀ v ∈ items, ReadBack layout.inner v)
    (is : List Source) (start : List Char) (frames : List Frame) (rest : List Char) :
    ∃ is', List.Forall₂ Source.Shows is' items ∧
      readTokens .separator (.array is start :: frames)
          (tokens (layout.tail ']' (items.map (render layout.inner)) rest)) =
        resume (.array (is.reverse ++ is') none ⟨start, rest⟩) frames rest := by
  induction items generalizing is with
  | nil =>
    refine ⟨[], .nil, (congrArg _ (tokens_lineBreak layout _)).trans ?_⟩
    rw [List.append_nil]
    exact readTokens_of_leads (leads_closeArray rest) rfl
  | cons v items ih =>
    obtain ⟨s, hs, hread⟩ := hitems v List.mem_cons_self .item (.array is start :: frames) _
      (.inr (.inl rfl)) (separated_tail layout (.inl rfl) (items.map (render layout.inner)) rest)
    obtain ⟨is', his', htail⟩ := ih (fun v hv => hitems v (List.mem_cons_of_mem _ hv)) (s :: is)
    refine ⟨s :: is', .cons hs his', ?_⟩
    rw [List.map_cons, tail_cons, readTokens_of_leads (leads_comma _) rfl, tokens_lineBreak, hread]
    rw [List.reverse_cons, List.append_assoc] at htail
    exact htail

lemma readBack_array {items : List Json} (hitems : ∀ v ∈ items, ReadBack layout.inner v) :
    ReadBack layout (.array items) := by
  intro e frames rest he _
  rw [render, renderItems_eq_map]
  cases items with
  | nil =>
    refine ⟨.array [] none ⟨'[' :: ']' :: rest, rest⟩, .array _ .nil, ?_⟩
    exact (readTokens_of_valueToken he (leads_openArray _) rfl).trans
      (readTokens_of_leads (leads_closeArray _) rfl)
  | cons v items =>
    rw [List.map_cons, enclose_cons, readTokens_of_valueToken he (leads_openArray _) rfl,
      tokens_lineBreak]
    -- The text from the bracket on is only kept as the place of the array.
    generalize '[' :: (layout.inner.lineBreak ++ _) = start
    obtain ⟨s, hs, hread⟩ := hitems v List.mem_cons_self .itemOrEnd (.array [] start :: frames) _
      (.inr (.inr rfl)) (separated_tail layout (.inl rfl) (items.map (render layout.inner)) rest)
    obtain ⟨is, his, htail⟩ := exists_readTokens_items
      (fun v' hv => hitems v' (List.mem_cons_of_mem _ hv)) [s] start frames rest
    exact ⟨_, .array _ (.cons hs his), hread.trans htail⟩

/-! ### Objects -/

lemma advance_of_key {key : Except Fault String} {ms : List (Member Source)} {start : List Char}
    {span : Span} (he : e = .keyOrEnd start ∧ ms = [] ∨ e = .key ms start) :
    advance e frames (.string key) span = .ok (.colon, .object ms key span.stop start :: frames) := by
  rcases he with ⟨rfl, rfl⟩ | rfl
  · rfl
  · rfl

lemma exists_leads_colon (layout : Layout) (cs : List Char) :
    ∃ rest, Leads (layout.colon ++ cs) .colon rest ∧ tokens rest = tokens cs := by
  cases layout with
  | compact => exact ⟨cs, leads_colon cs, rfl⟩
  | pretty n => exact ⟨' ' :: cs, leads_colon _, tokens_space rfl cs⟩

lemma exists_readTokens_member {m : String × Json} (hm : ReadBack layout m.2)
    (ms : List (Member Source)) (start : List Char)
    (he : e = .keyOrEnd start ∧ ms = [] ∨ e = .key ms start) (frames : List Frame)
    (hrest : Separated rest) : ∃ (m' : Member Source) (afterKey : List Char), m'.Shows m ∧
      readTokens e frames (tokens (renderMember layout m ++ rest)) =
        readTokens .separator (.object (m' :: ms) (.ok m.1) afterKey start :: frames)
          (tokens rest) := by
  obtain ⟨k, v⟩ := m
  have hkey := leads_quote k (layout.colon ++ (render layout v ++ rest))
  obtain ⟨after, hcolon, hafter⟩ := exists_leads_colon layout (render layout v ++ rest)
  rw [renderMember, List.append_assoc, List.append_assoc]
  generalize layout.colon ++ (render layout v ++ rest) = afterKey at hkey hcolon ⊢
  obtain ⟨s, hs, hread⟩ :=
    hm .value (.object ms (.ok k) afterKey start :: frames) rest (.inl rfl) hrest
  refine ⟨⟨.ok k, afterKey, s⟩, afterKey, .mk k afterKey hs, ?_⟩
  rw [readTokens_of_leads hkey (advance_of_key he), readTokens_of_leads hcolon rfl, hafter, hread]
  rfl

/-- The members after the first one, and the end of the object. -/
lemma exists_readTokens_members {members : List (String × Json)}
    (hmembers : ∀ m ∈ members, ReadBack layout.inner m.2) (ms : List (Member Source))
    (key : Except Fault String) (afterKey start : List Char) (frames : List Frame)
    (rest : List Char) : ∃ ms', List.Forall₂ Member.Shows ms' members ∧
      readTokens .separator (.object ms key afterKey start :: frames)
          (tokens (layout.tail '\x7d' (members.map (renderMember layout.inner)) rest)) =
        resume (.object (ms.reverse ++ ms') none ⟨start, rest⟩) frames rest := by
  induction members generalizing ms key afterKey with
  | nil =>
    refine ⟨[], .nil, (congrArg _ (tokens_lineBreak layout _)).trans ?_⟩
    rw [List.append_nil]
    exact readTokens_of_leads (leads_closeObject rest) rfl
  | cons m members ih =>
    obtain ⟨m', afterKey', hm', hread⟩ := exists_readTokens_member (hmembers m List.mem_cons_self)
      ms start (.inr rfl) frames
      (separated_tail layout (.inr rfl) (members.map (renderMember layout.inner)) rest)
    obtain ⟨ms', hms', htail⟩ :=
      ih (fun m hm => hmembers m (List.mem_cons_of_mem _ hm)) (m' :: ms) (.ok m.1) afterKey'
    refine ⟨m' :: ms', .cons hm' hms', ?_⟩
    rw [List.map_cons, tail_cons, readTokens_of_leads (leads_comma _) rfl, tokens_lineBreak, hread]
    rw [List.reverse_cons, List.append_assoc] at htail
    exact htail

lemma readBack_object {members : List (String × Json)}
    (hmembers : ∀ m ∈ members, ReadBack layout.inner m.2) : ReadBack layout (.object members) := by
  intro e frames rest he _
  rw [render, renderMembers_eq_map]
  cases members with
  | nil =>
    refine ⟨.object [] none ⟨'\x7b' :: '\x7d' :: rest, rest⟩, .object _ .nil, ?_⟩
    exact (readTokens_of_valueToken he (leads_openObject _) rfl).trans
      (readTokens_of_leads (leads_closeObject _) rfl)
  | cons m members =>
    rw [List.map_cons, enclose_cons, readTokens_of_valueToken he (leads_openObject _) rfl,
      tokens_lineBreak]
    generalize '\x7b' :: (layout.inner.lineBreak ++ _) = start
    obtain ⟨m', afterKey, hm', hread⟩ := exists_readTokens_member (hmembers m List.mem_cons_self)
      [] start (.inl ⟨rfl, rfl⟩) frames
      (separated_tail layout (.inr rfl) (members.map (renderMember layout.inner)) rest)
    obtain ⟨ms, hms, htail⟩ := exists_readTokens_members
      (fun m hm => hmembers m (List.mem_cons_of_mem _ hm)) [m'] (.ok m.1) afterKey start frames rest
    exact ⟨_, .object _ (.cons hm' hms), hread.trans htail⟩

/-! ### All values -/

theorem Exact.readBack {v : Json} (h : Exact v) (layout : Layout) : ReadBack layout v := by
  induction h generalizing layout with
  | null => exact readBack_of_leads .null (fun rest _ => ⟨_, _, rfl, rfl, rfl⟩) fun _ _ => rfl
  | bool b =>
    cases b with
    | false =>
      exact readBack_of_leads (.bool false) (fun rest _ => ⟨_, _, rfl, rfl, rfl⟩) fun _ _ => rfl
    | true =>
      exact readBack_of_leads (.bool true) (fun rest _ => ⟨_, _, rfl, rfl, rfl⟩) fun _ _ => rfl
  | number h =>
    exact readBack_of_leads (.number _) (fun rest hrest => leads_render h hrest) fun _ _ => rfl
  | string s => exact readBack_of_leads (.string s) (fun rest _ => leads_quote s rest) fun _ _ => rfl
  | array _ ih => exact readBack_array fun v hv => ih v hv layout.inner
  | object _ ih => exact readBack_object fun m hm => ih m hm layout.inner

/-- Nothing is lost between a value and the source that its text is read as. -/
theorem Exact.exists_shows_ofText {v : Json} (h : Exact v) (layout : Layout) : ∃ s : Source,
    s.Shows v ∧ Document.ofText (String.ofList (render layout v)) = ⟨s, none⟩ := by
  obtain ⟨s, hs, hread⟩ := h.readBack layout .value [] [] (.inl rfl) trivial
  rw [List.append_nil] at hread
  refine ⟨s, hs, ?_⟩
  rw [Document.ofText, String.toList_ofList, hread]
  rfl

end AssemblyPolicy.Json
