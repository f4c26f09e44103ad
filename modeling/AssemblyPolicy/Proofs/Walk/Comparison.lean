import AssemblyPolicy.Proofs.Walk.Presence

/-!
# Walks of which one sees more

Two walks need not visit methods in the same order, nor hit their limits at the same places, for
their answers to be compared. If all that one walk sees is there for the other (`Walk.Within`), then
what the first finds the second does not pass over (`Within.search_ne_absent`).
-/

namespace AssemblyPolicy.Walk

/-- All that `w` sees is there for `w'`: methods have the same bodies, operands that count or that
the walk may go into still do, and what is a use stays one. -/
structure Within (w w' : Walk) : Prop where
  body : ∀ m b, w.loaded.methodBody? m = some b → w'.loaded.methodBody? m = some b
  counts : ∀ o, w.Counts o → w'.Counts o
  opens : ∀ o, w.Open o → w'.Open o
  inOperand : ∀ o, w.pattern.inOperand o = true → w'.pattern.inOperand o = true
  inLocal : ∀ t, w.pattern.inLocal t = true → w'.pattern.inLocal t = true

namespace Within

variable {w w' : Walk} {root m n : MethodRef} {b : MethodBody}

lemma usedIn (h : w.Within w') (hb : w.UsedIn b) : w'.UsedIn b := by
  rcases hb with ⟨l, hl, hp⟩ | ⟨o, ho, hc, hp⟩
  · exact .inl ⟨l, hl, h.inLocal _ hp⟩
  · exact .inr ⟨o, ho, h.counts o hc, h.inOperand o hp⟩

lemma hit (h : w.Within w') (hm : w.Hit m) : w'.Hit m := by
  obtain ⟨b, hb, hused⟩ := hm
  exact ⟨b, h.body m b hb, h.usedIn hused⟩

lemma calls (h : w.Within w') (hm : w.Calls m n) : w'.Calls m n := by
  obtain ⟨b, hb, hmem, hopen⟩ := hm
  exact ⟨b, h.body m b hb, hmem, h.opens _ hopen⟩

/-- What a walk finds, one that sees more finds too, unless it hits a limit first. On the way it may
meet other uses, since more operands may be uses to it. -/
theorem search_ne_absent (h : w.Within w')
    (hinj : Set.InjOn MethodRef.fullName (w'.region root)) (hs : w.search root = .present) :
    w'.search root ≠ .absent := by
  obtain ⟨path, hpath⟩ := exists_path_of_search_eq_present hs
  obtain ⟨m, hlast, hit⟩ := hpath.hit
  have hchain : (root :: path).IsChain w'.Calls := hpath.chain.imp fun _ _ hd => h.calls hd.1
  exact search_ne_absent_of_isChain hinj hchain ⟨m, hlast, h.hit hit⟩

end Within

end AssemblyPolicy.Walk
