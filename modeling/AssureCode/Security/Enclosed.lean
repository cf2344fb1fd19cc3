import AssureCode.Security.Completeness
import AssureCode.Security.Guard

/-! # The block stays closed

Both rewritings of untrusted text only put zero-width spaces in. After the first one no fence is
left, after the second no start of a closing marker, and none of the two can make the other's
sequence again, as every new character is one that neither sequence has.
-/

namespace AssureCode.Security

open Js Python

variable {s t u w : Text} {c z : ℕ}

/-! ## Padding -/

/-- The second text is the first one with some more `z` in it. -/
inductive Padded (z : ℕ) : Text → Text → Prop
  | nil : Padded z [] []
  | keep (c : ℕ) {s t : Text} : Padded z s t → Padded z (c :: s) (c :: t)
  | pad {s t : Text} : Padded z s t → Padded z s (z :: t)

theorem Padded.refl (z : ℕ) : ∀ t : Text, Padded z t t
  | [] => .nil
  | c :: t => .keep c (Padded.refl z t)

theorem Padded.append {s' t' : Text} (h : Padded z s t) (h' : Padded z s' t') :
    Padded z (s ++ s') (t ++ t') := by
  induction h with
  | nil => exact h'
  | keep c _ ih => exact .keep c ih
  | pad _ ih => exact .pad ih

theorem Padded.count (h : Padded z s t) (hc : c ≠ z) : t.count c = s.count c := by
  induction h with
  | nil => rfl
  | keep d _ ih => rw [List.count_cons, List.count_cons, ih]
  | pad _ ih => rw [List.count_cons_of_ne (Ne.symm hc), ih]

theorem Padded.isPrefix (h : Padded z s t) (hz : z ∉ w) (hw : w <+: t) : w <+: s := by
  induction h generalizing w with
  | nil => exact hw
  | keep c _ ih =>
    rcases List.prefix_cons_iff.mp hw with rfl | ⟨v, rfl, hv⟩
    · exact List.nil_prefix
    · exact List.cons_prefix_cons.mpr ⟨rfl, ih (fun h => hz (List.mem_cons_of_mem _ h)) hv⟩
  | pad _ ih =>
    rcases List.prefix_cons_iff.mp hw with rfl | ⟨v, rfl, hv⟩
    · exact List.nil_prefix
    · exact absurd List.mem_cons_self hz

/-- What stands in the padded text without the padding stood in the text before. -/
theorem Padded.isInfix (h : Padded z s t) (hz : z ∉ w) (hw : w <:+: t) : w <:+: s := by
  induction h with
  | nil => exact hw
  | keep c h ih =>
    rcases List.infix_cons_iff.mp hw with hw | hw
    · exact ((h.keep c).isPrefix hz hw).isInfix
    · exact List.infix_cons_iff.mpr (.inr (ih hw))
  | pad h ih =>
    rcases List.infix_cons_iff.mp hw with hw | hw
    · exact ((h.pad).isPrefix hz hw).isInfix
    · exact ih hw

/-! ## Parts of a text -/

/-- An occurrence does not span a character that it lacks. -/
theorem prefix_drop_append_cons {i : ℕ} (hc : c ∉ w)
    (h : w <+: (s ++ c :: t).drop i) :
    w <+: s.drop i ∨ ∃ j, i = s.length + 1 + j ∧ w <+: t.drop j := by
  rcases Nat.lt_or_ge s.length i with hi | hi
  · obtain ⟨j, rfl⟩ := Nat.exists_eq_add_of_lt hi
    refine .inr ⟨j, by omega, ?_⟩
    have hdrop : (s ++ c :: t).drop (s.length + j + 1) = t.drop j := by
      rw [Nat.add_assoc, List.drop_append]
      simp
    rwa [hdrop] at h
  · rw [List.drop_append_of_le_length hi] at h
    exact .inl (prefix_append_cons hc h)

/-! ## Replacing -/

/-- Neither text starts with the other one. -/
def Clash (s t : Text) : Prop := ¬ s <+: t ∧ ¬ t <+: s

instance (s t : Text) : Decidable (Clash s t) := inferInstanceAs (Decidable (_ ∧ _))

theorem Clash.not_prefix_append (h : Clash s t) (u : Text) : ¬ s <+: t ++ u := by
  intro hs
  rcases List.prefix_or_prefix_of_prefix hs (List.prefix_append t u) with h' | h'
  · exact h.1 h'
  · exact h.2 h'

theorem not_infix_append (h : ∀ i < t.length, Clash s (t.drop i)) (hu : ¬ s <:+: u) :
    ¬ s <:+: t ++ u := by
  induction t with
  | nil => exact hu
  | cons c t ih =>
    rw [List.cons_append, List.infix_cons_iff, not_or]
    refine ⟨(h 0 (Nat.succ_pos _)).not_prefix_append u, ih fun i hi => ?_⟩
    exact h (i + 1) (Nat.succ_lt_succ hi)

/-- An occurrence of `old` neither starts within `new` nor ends within it. -/
structure Separate (old new : Text) : Prop where
  starts : ∀ i < new.length, Clash old (new.drop i)
  ends : ∀ i < old.length, 0 < i → Clash (old.drop i) new

section Replace

variable {old new : Text} (hsep : Separate old new)
include hsep

theorem prefix_of_prefix_replaceFrom {i : ℕ} (hi : 0 < i) (t : Text)
    (h : old.drop i <+: replaceFrom old new t 0) : old.drop i <+: t := by
  induction t generalizing i with
  | nil => exact h
  | cons c t ih =>
    by_cases hlt : i < old.length
    · rw [replaceFrom] at h
      split_ifs at h with hmatch
      · exact absurd h ((hsep.ends i hlt hi).not_prefix_append _)
      · rw [List.drop_eq_getElem_cons hlt] at h ⊢
        obtain ⟨hc, hrest⟩ := List.cons_prefix_cons.mp h
        exact List.cons_prefix_cons.mpr ⟨hc, ih (Nat.succ_pos i) hrest⟩
    · rw [List.drop_eq_nil_of_le (not_lt.mp hlt)]
      exact List.nil_prefix

/-- Nothing is left to replace. -/
theorem not_infix_replaceFrom (hne : old ≠ []) (t : Text) (skip : ℕ) :
    ¬ old <:+: replaceFrom old new t skip := by
  induction t generalizing skip with
  | nil => simpa [replaceFrom] using hne
  | cons c t ih =>
    cases skip with
    | succ skip => exact ih skip
    | zero =>
      rw [replaceFrom]
      split_ifs with hmatch
      · exact not_infix_append hsep.starts (ih _)
      · rw [List.infix_cons_iff, not_or]
        refine ⟨fun hprefix => hmatch ?_, ih 0⟩
        obtain ⟨d, v, rfl⟩ := List.exists_cons_of_ne_nil hne
        obtain ⟨hd, hv⟩ := List.cons_prefix_cons.mp hprefix
        exact List.isPrefixOf_iff_prefix.mpr
          (List.cons_prefix_cons.mpr ⟨hd, prefix_of_prefix_replaceFrom hsep Nat.one_pos t hv⟩)

end Replace

/-- What is put in for a pattern is the pattern with padding. -/
theorem padded_replaceFrom {old new : Text} (hne : old ≠ []) (h : Padded z old new) (t : Text) :
    ∀ skip, Padded z (t.drop skip) (replaceFrom old new t skip) := by
  induction t with
  | nil =>
    intro skip
    rw [List.drop_nil, replaceFrom]
    exact .nil
  | cons c t ih =>
    intro skip
    cases skip with
    | succ skip => exact ih skip
    | zero =>
      rw [replaceFrom]
      split_ifs with hmatch
      · obtain ⟨rest, hrest⟩ := List.isPrefixOf_iff_prefix.mp hmatch
        obtain ⟨d, v, rfl⟩ := List.exists_cons_of_ne_nil hne
        rw [List.cons_append] at hrest
        obtain ⟨rfl, rfl⟩ := List.cons.inj hrest
        have hdrop := ih v.length
        rw [List.drop_left] at hdrop
        exact h.append hdrop
      · exact .keep c (ih 0)

/-! ## Fences -/

def fence : Text := [backtick, backtick, backtick]

/-- A run of `neutralize`, as it is written. -/
def breakRun (run : Text) : Text :=
  if run.head? = some backtick ∧ 3 ≤ run.length then run.flatMap fun c => [c, zeroWidthSpace]
  else run

theorem padded_spaces (t : Text) :
    Padded zeroWidthSpace t (t.flatMap fun c => [c, zeroWidthSpace]) := by
  induction t with
  | nil => exact .nil
  | cons c t ih => exact .keep c (.pad ih)

theorem padded_breakRun (run : Text) : Padded zeroWidthSpace run (breakRun run) := by
  unfold breakRun
  split_ifs
  · exact padded_spaces run
  · exact .refl _ run

theorem padded_neutralize (t : Text) : Padded zeroWidthSpace t (neutralize t) := by
  have hflat : ∀ runs : List Text, Padded zeroWidthSpace runs.flatten (runs.flatMap breakRun) := by
    intro runs
    induction runs with
    | nil => exact .nil
    | cons run runs ih => exact (padded_breakRun run).append ih
  have h := hflat (t.splitBy fun a b => (a == backtick) == (b == backtick))
  rwa [List.flatten_splitBy] at h

/-- Every run is of backticks only or has none. -/
theorem uniform_of_isChain {run : Text}
    (h : run.IsChain fun a b => (a == backtick) == (b == backtick)) :
    (∀ c ∈ run, c = backtick) ∨ ∀ c ∈ run, c ≠ backtick := by
  induction run with
  | nil => exact .inl (by simp)
  | cons a run ih =>
    cases run with
    | nil =>
      rcases eq_or_ne a backtick with ha | ha
      · exact .inl (by simpa using ha)
      · exact .inr (by simpa using ha)
    | cons b run =>
      rw [List.isChain_cons_cons] at h
      have hab : a = backtick ↔ b = backtick := by
        have hsame := h.1
        rwa [beq_iff_eq, Bool.eq_iff_iff, beq_iff_eq, beq_iff_eq] at hsame
      rcases ih h.2 with hall | hall
      · exact .inl (List.forall_mem_cons.mpr ⟨hab.mpr (hall b List.mem_cons_self), hall⟩)
      · exact .inr (List.forall_mem_cons.mpr ⟨mt hab.mp (hall b List.mem_cons_self), hall⟩)

theorem not_fence_spaces (ht : ¬ fence <:+: t) (run : Text) :
    ¬ fence <:+: (run.flatMap fun c => [c, zeroWidthSpace]) ++ t := by
  induction run with
  | nil => exact ht
  | cons c run ih =>
    have hsplit := infix_append_cons (w := fence) (c := zeroWidthSpace) (s := [c])
      (t := (run.flatMap fun c => [c, zeroWidthSpace]) ++ t) (by decide)
    intro h
    rcases hsplit h with h | h
    · have := h.length_le
      simp [fence] at this
    · exact ih h

theorem not_fence_append (ht : ¬ fence <:+: t) {run : Text} (hrun : ∀ c ∈ run, c ≠ backtick) :
    ¬ fence <:+: run ++ t := by
  induction run with
  | nil => exact ht
  | cons c run ih =>
    obtain ⟨hc, hrun⟩ := List.forall_mem_cons.mp hrun
    rw [List.cons_append, List.infix_cons_iff, not_or]
    refine ⟨fun h => hc ?_, ih hrun⟩
    exact (List.cons_prefix_cons.mp h).1.symm

theorem breakRun_of_ne {run : Text} (h : run.head? ≠ some backtick) : breakRun run = run :=
  if_neg fun hrun => h hrun.1

theorem breakRun_of_short {run : Text} (h : run.length < 3) : breakRun run = run :=
  if_neg fun hrun => absurd hrun.2 (by omega)

theorem not_fence_of_short {run : Text} (h : run.length < 3) : ¬ fence <:+: run := by
  intro hrun
  have := hrun.length_le
  simp only [fence, List.length_cons, List.length_nil] at this
  omega

/-- Broken runs that alternate have no fence. -/
theorem not_fence_runs {runs : List Text} (hne : [] ∉ runs)
    (hruns : ∀ run ∈ runs, run.IsChain fun a b => (a == backtick) == (b == backtick))
    (hnext : runs.IsChain fun a b => ∃ ha hb,
      ((a.getLast ha == backtick) == (b.head hb == backtick)) = false) :
    ¬ fence <:+: runs.flatMap breakRun := by
  induction runs with
  | nil => decide
  | cons run runs ih =>
    rw [List.mem_cons, not_or] at hne
    obtain ⟨hrun, hruns⟩ := List.forall_mem_cons.mp hruns
    have hrest := ih hne.2 hruns hnext.tail
    rw [List.flatMap_cons]
    rcases uniform_of_isChain hrun with hticks | hnone
    · obtain ⟨a, run, rfl⟩ := List.exists_cons_of_ne_nil (Ne.symm hne.1)
      obtain rfl : a = backtick := hticks a List.mem_cons_self
      by_cases hlong : 3 ≤ (backtick :: run).length
      · rw [breakRun, if_pos ⟨rfl, hlong⟩]
        exact not_fence_spaces hrest _
      · have hshort : (backtick :: run).length < 3 := by omega
        rw [breakRun_of_short hshort]
        cases runs with
        | nil =>
          rw [List.flatMap_nil, List.append_nil]
          exact not_fence_of_short hshort
        | cons next runs =>
          -- the next run starts with another character
          rw [List.isChain_cons_cons] at hnext
          obtain ⟨⟨hlast, hhead, hdiff⟩, -⟩ := hnext
          obtain ⟨c, next, rfl⟩ := List.exists_cons_of_ne_nil hhead
          have hc : c ≠ backtick := by
            rintro rfl
            rw [hticks _ (List.getLast_mem hlast)] at hdiff
            simp at hdiff
          rw [List.flatMap_cons, breakRun_of_ne (by simpa using hc)] at hrest ⊢
          have hmem : c ∉ fence := by simpa [fence] using hc
          intro h
          rcases infix_append_cons hmem h with h | h
          · exact not_fence_of_short hshort h
          · exact hrest (List.infix_cons_iff.mpr (.inr h))
    · rw [breakRun_of_ne fun h => hnone _ (List.mem_of_head? h) rfl]
      exact not_fence_append hrest hnone

theorem not_fence_neutralize (t : Text) : ¬ fence <:+: neutralize t :=
  not_fence_runs (List.nil_notMem_splitBy _ t) (fun _ h => List.isChain_of_mem_splitBy h)
    (List.isChain_getLast_head_splitBy (fun a b => (a == backtick) == (b == backtick)) t)

/-! ## The block -/

def endMark : Text := text "<<<END-UNTRUSTED-"

def endMarkBroken : Text := text "<<<END" ++ zeroWidthSpace :: text "-UNTRUSTED-"

theorem separate_endMark : Separate endMark endMarkBroken where
  starts := by decide +kernel
  ends := by decide +kernel

/-- What `guard` makes of a text. -/
def enclosed (t : Text) : Text := replace (neutralize t) endMark endMarkBroken

theorem padded_endMark : Padded zeroWidthSpace endMark endMarkBroken := by
  have h := (Padded.refl zeroWidthSpace (text "<<<END")).append
    (.pad (.refl zeroWidthSpace (text "-UNTRUSTED-")))
  exact h

theorem padded_enclosed (t : Text) : Padded zeroWidthSpace (neutralize t) (enclosed t) :=
  padded_replaceFrom (by decide) padded_endMark _ 0

theorem not_fence_enclosed (t : Text) : ¬ fence <:+: enclosed t := fun h =>
  not_fence_neutralize t ((padded_enclosed t).isInfix (by decide) h)

theorem not_endMark_enclosed (t : Text) : ¬ endMark <:+: enclosed t :=
  not_infix_replaceFrom separate_endMark (by decide) _ 0

theorem length_lines_enclosed (t : Text) : (lines (enclosed t)).length = (lines t).length := by
  rw [length_lines, length_lines, (padded_enclosed t).count (by decide),
    (padded_neutralize t).count (by decide)]

def isHexDigit (u : ℕ) : Bool :=
  (0x30 ≤ u && u ≤ 0x39) || (0x41 ≤ u && u ≤ 0x46) || (0x61 ≤ u && u ≤ 0x66)

/-- Sixteen hexadecimal digits, as `secrets.token_hex(8)` makes them. -/
def IsNonce (nonce : Text) : Prop := nonce.length = 16 ∧ ∀ u ∈ nonce, isHexDigit u

instance (nonce : Text) : Decidable (IsNonce nonce) := inferInstanceAs (Decidable (_ ∧ _))

/-- The code point of `<`. -/
abbrev angle : ℕ := 0x3C

theorem closeMarker_eq (b : GuardedBlock) :
    b.closeMarker = endMark ++ (b.nonce ++ text ">>>") := by
  rw [GuardedBlock.closeMarker, List.append_assoc]
  rfl

section Block

variable {b : GuardedBlock} (hn : IsNonce b.nonce)
include hn

theorem notMem_nonce (hc : isHexDigit c = false) : c ∉ b.nonce := by
  intro hmem
  rw [hn.2 c hmem] at hc
  cases hc

theorem notMem_openMarker (hc : isHexDigit c = false)
    (hs : c ∉ text "<<<UNTRUSTED-" ∧ c ∉ text ">>>") : c ∉ b.openMarker := by
  rw [GuardedBlock.openMarker, List.mem_append, List.mem_append]
  exact not_or.mpr ⟨not_or.mpr ⟨hs.1, notMem_nonce hn hc⟩, hs.2⟩

theorem notMem_closeMarker (hc : isHexDigit c = false) (hs : c ∉ endMark ∧ c ∉ text ">>>") :
    c ∉ b.closeMarker := by
  rw [closeMarker_eq, List.mem_append, List.mem_append]
  exact not_or.mpr ⟨hs.1, not_or.mpr ⟨notMem_nonce hn hc, hs.2⟩⟩

theorem angle_notMem_rest : angle ∉ b.nonce ++ text ">>>" := by
  rw [List.mem_append]
  exact not_or.mpr ⟨notMem_nonce hn (by decide), by decide⟩

theorem not_endMark_openMarker : ¬ endMark <:+: b.openMarker := by
  rw [GuardedBlock.openMarker, List.append_assoc]
  refine not_infix_append (by decide +kernel) fun h => angle_notMem_rest hn ?_
  exact h.subset (by decide)

/-- The start of a closing marker stands in it at its own start only. -/
theorem endMark_in_closeMarker {i : ℕ} (h : endMark <+: b.closeMarker.drop i) : i = 0 := by
  rw [closeMarker_eq] at h
  by_contra hi
  rcases Nat.lt_or_ge i endMark.length with hlt | hge
  · have hclash : ∀ j < endMark.length, 0 < j → Clash endMark (endMark.drop j) := by
      decide +kernel
    rw [List.drop_append_of_le_length hlt.le] at h
    exact (hclash i hlt (Nat.pos_of_ne_zero hi)).not_prefix_append _ h
  · rw [List.drop_append, List.drop_eq_nil_of_le hge, List.nil_append] at h
    exact angle_notMem_rest hn (List.mem_of_mem_drop (h.subset (by decide)))

/-- Where the body has no start of a closing marker, the block ends with its only one. -/
theorem closeMarker_prefix_drop (hb : ¬ endMark <:+: b.body) (i : ℕ) :
    b.closeMarker <+: b.render.drop i ↔ i + b.closeMarker.length = b.render.length := by
  have hlength : b.render.length =
      (b.openMarker ++ newline :: b.body).length + 1 + b.closeMarker.length := by
    simp only [GuardedBlock.render, List.length_append, List.length_cons]
    omega
  constructor
  · intro h
    have hmark : endMark <+: b.render.drop i := by
      refine List.IsPrefix.trans ?_ h
      rw [closeMarker_eq]
      exact List.prefix_append _ _
    rcases prefix_drop_append_cons (by decide) hmark with hbefore | ⟨j, rfl, hclose⟩
    · rcases prefix_drop_append_cons (by decide) hbefore with hopen | ⟨j, -, hbody⟩
      · exact absurd (hopen.isInfix.trans (List.drop_suffix _ _).isInfix)
          (not_endMark_openMarker hn)
      · exact absurd (hbody.isInfix.trans (List.drop_suffix _ _).isInfix) hb
    · have := endMark_in_closeMarker hn hclose
      omega
  · intro h
    obtain rfl : i = (b.openMarker ++ newline :: b.body ++ [newline]).length := by
      rw [List.length_append, List.length_singleton]
      omega
    have hrender : b.render =
        (b.openMarker ++ newline :: b.body ++ [newline]) ++ b.closeMarker := by
      rw [List.append_assoc]
      rfl
    simp only [hrender, List.drop_left, List.prefix_rfl]

theorem lines_render : lines b.render = b.openMarker :: lines b.body ++ [b.closeMarker] := by
  have hopen : newline ∉ b.openMarker := notMem_openMarker hn (by decide) (by decide)
  have hclose : newline ∉ b.closeMarker := notMem_closeMarker hn (by decide) (by decide)
  rw [GuardedBlock.render, lines_append_newline, lines_append_newline, lines_eq_singleton hopen,
    lines_eq_singleton hclose]
  rfl

theorem not_fence_render (hb : ¬ fence <:+: b.body) : ¬ fence <:+: b.render := by
  have hopen : backtick ∉ b.openMarker := notMem_openMarker hn (by decide) (by decide)
  have hclose : backtick ∉ b.closeMarker := notMem_closeMarker hn (by decide) (by decide)
  intro h
  rcases infix_append_cons (by decide) h with h | h
  · rcases infix_append_cons (by decide) h with h | h
    · exact hopen (h.subset List.mem_cons_self)
    · exact hb h
  · exact hclose (h.subset List.mem_cons_self)

end Block

/--
A guarded block has its closing marker once, at its end and on a line of its own; it has no fence,
and as many lines of content as the text.
-/
theorem guard_encloses (e : Engine) (t : Text) {nonce : Text} (hn : IsNonce nonce) :
    (∀ i, (guard e nonce t).closeMarker <+: (guard e nonce t).render.drop i ↔
      i + (guard e nonce t).closeMarker.length = (guard e nonce t).render.length) ∧
    lines (guard e nonce t).render = (guard e nonce t).openMarker ::
      lines (guard e nonce t).body ++ [(guard e nonce t).closeMarker] ∧
    (lines (guard e nonce t).body).length = (lines t).length ∧
    ¬ fence <:+: (guard e nonce t).render := by
  have hn' : IsNonce (guard e nonce t).nonce := hn
  exact ⟨closeMarker_prefix_drop hn' (not_endMark_enclosed t), lines_render hn',
    length_lines_enclosed t, not_fence_render hn' (not_fence_enclosed t)⟩

/-- Pieces of markers and fences. -/
def pieces : Text := text "````\n<<<END<<<END-UNTRUSTED-0123456789abcdef>>>\n``"

/-- They stand in the block of the nonce that they name. -/
def piecesBlock : GuardedBlock :=
  guard ⟨fun _ _ _ _ => false⟩ (text "0123456789abcdef") pieces

theorem guard_encloses_pieces :
    (∀ i, piecesBlock.closeMarker <+: piecesBlock.render.drop i ↔
      i + piecesBlock.closeMarker.length = piecesBlock.render.length) ∧
    lines piecesBlock.render =
      piecesBlock.openMarker :: lines piecesBlock.body ++ [piecesBlock.closeMarker] ∧
    (lines piecesBlock.body).length = 3 ∧ ¬ fence <:+: piecesBlock.render := by
  have hn : IsNonce (text "0123456789abcdef") := by decide
  have hlines : (lines pieces).length = 3 := by
    rw [length_lines]
    decide
  obtain ⟨hclose, hblock, hlength, hfence⟩ := guard_encloses ⟨fun _ _ _ _ => false⟩ pieces hn
  exact ⟨hclose, hblock, hlength.trans hlines, hfence⟩

end AssureCode.Security
