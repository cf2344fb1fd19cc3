import AssureCode.Python.Text
import AssureCode.Regex.Pattern

/-! # Code fences

The AI service takes the code out of the markdown fences of a model's answer before it stores it,
and the CI worker does the same to what it fetches. Both use one regular expression.
-/

namespace AssureCode.Sandbox

open Js Python Regex

/-- Three backticks. -/
def fence : Text := [0x60, 0x60, 0x60]

/-- `[ \t]` -/
def isBlankChar (c : ℕ) : Bool := c == 0x20 || c == 9

/-- `[A-Za-z0-9_+-]` -/
def isTagChar (c : ℕ) : Bool :=
  (0x41 ≤ c && c ≤ 0x5A) || (0x61 ≤ c && c ≤ 0x7A) || (0x30 ≤ c && c ≤ 0x39) || c == 0x5F ||
    c == 0x2B || c == 0x2D

/-- `\r?\n` -/
def lineEnd : Pattern ℕ := .seq (.opt (.one (· = 13))) (.one (· = newline))

/-- The line that opens a block. -/
def opening : Pattern ℕ :=
  .seq (.literal fence) <| .seq (.many isBlankChar) <| .seq (.many isTagChar) <|
    .seq (.many isBlankChar) lineEnd

/-- What closes a block. -/
def closing : Pattern ℕ := .seq (.opt lineEnd) (.literal fence)

/-- The body of a block, and what closes it. -/
def bodied : Pattern ℕ := .seq (.group (.lazy fun _ => true)) closing

/-- `_FENCED_BLOCK`, and `FENCED_BLOCK` of the worker. -/
def fencedBlock : Pattern ℕ := .seq opening bodied

/-- `b1 + "\n\n" + b2 + …` -/
def joinBlocks : List Text → Text
  | [] => []
  | [b] => b
  | b :: bs => b ++ newline :: newline :: joinBlocks bs

/-- The bodies of the blocks, each of them stripped; the text where there is no block. -/
def unfenced (strip : Text → Text) (text : Text) : Text :=
  let blocks := (fencedBlock.findAll 0 text).map fun groups => strip (groups.headD [])
  if blocks = [] then strip text else strip (joinBlocks blocks)

/-- `strip_code_fences` of the AI service. -/
def TestGen.stripCodeFences (text : Text) : Text := unfenced strip text

/-- `stripCodeFences` of the CI worker. -/
def WorkspaceBuilder.stripCodeFences (text : Text) : Text := unfenced trim text

variable {s t u w x y : Text} {c : ℕ} {groups : List Text}

/-! ## Blocks hold no fence -/

theorem closing_accepts_fence : closing.Accepts fence :=
  ⟨[], fence, .inr rfl, Pattern.accepts_literal.mpr rfl, rfl⟩

/-- The body ends before the first fence. -/
theorem exists_body {m : Match ℕ} (h : (bodied.results t).head? = some m) :
    ∃ body, m.1 = [body] ∧ body <:+: t ∧ ¬ fence <:+: body := by
  rw [bodied, Pattern.results, Pattern.results, Pattern.results, List.map_map,
    List.flatMap_map] at h
  obtain ⟨w, u, rfl, hhead, hnone⟩ := Pattern.exists_of_head?_lazy h
  obtain ⟨n, hn, rfl⟩ := List.mem_map.mp (List.mem_of_head? hhead)
  have hgroups : n.1 = [] := Pattern.groups_eq_nil rfl hn
  refine ⟨w, ?_, (List.prefix_append w u).isInfix, ?_⟩
  · simp [hgroups]
  · rintro ⟨x, y, rfl⟩
    have hearlier := List.map_eq_nil_iff.mp (hnone x (fence ++ y) (List.append_assoc x fence y)
      (List.append_ne_nil_of_left_ne_nil (List.cons_ne_nil _ _) y))
    apply Pattern.results_eq_nil_iff.mp hearlier fence closing_accepts_fence
    exact (List.prefix_append fence (y ++ u)).trans (List.append_assoc fence y u ▸ List.prefix_rfl)

theorem exists_block {skip : ℕ} (h : groups ∈ fencedBlock.findAll skip t) :
    ∃ body, groups = [body] ∧ body <:+: t ∧ ¬ fence <:+: body := by
  obtain ⟨u, m, hu, hhead, rfl⟩ := Pattern.exists_of_mem_findAll h
  rw [fencedBlock, Pattern.results] at hhead
  obtain ⟨o, ho, hrest⟩ := Pattern.exists_of_head?_flatMap hhead
  obtain ⟨n, hn, rfl⟩ := Option.map_eq_some_iff.mp (List.head?_map ▸ hrest)
  obtain ⟨body, hbody, hinfix, hfence⟩ := exists_body hn
  obtain ⟨w, -, hw⟩ := Pattern.mem_results_iff.mp ⟨o.1, ho⟩
  have hsuffix : o.2 <:+ u := ⟨w, hw.symm⟩
  refine ⟨body, ?_, hinfix.trans (hsuffix.trans hu).isInfix, hfence⟩
  rw [Pattern.groups_eq_nil rfl ho, List.nil_append, hbody]

theorem fence_joinBlocks {bs : List Text} (h : ∀ b ∈ bs, ¬ fence <:+: b) :
    ¬ fence <:+: joinBlocks bs := by
  induction bs with
  | nil => decide
  | cons b bs ih =>
    obtain ⟨hb, hbs⟩ := List.forall_mem_cons.mp h
    cases bs with
    | nil => exact hb
    | cons b' bs =>
      intro hjoin
      rcases infix_append_cons (by decide) hjoin with hin | hin
      · exact hb hin
      · rcases infix_append_cons (s := []) (by decide) hin with hin | hin
        · exact absurd (List.infix_nil.mp hin) (List.cons_ne_nil _ _)
        · exact ih hbs hin

/-! ## Nothing is left to strip -/

theorem accepts_fencedBlock :
    fencedBlock.Accepts w ↔ ∃ o body, opening.Accepts o ∧ w = o ++ (body ++ fence) := by
  constructor
  · rintro ⟨o, b, ho, ⟨body, cl, -, ⟨e, f, -, hf, rfl⟩, rfl⟩, rfl⟩
    rw [Pattern.accepts_literal.mp hf]
    exact ⟨o, body ++ e, ho, by simp⟩
  · rintro ⟨o, body, ho, rfl⟩
    exact ⟨o, body ++ fence, ho, ⟨body, fence, fun _ _ => rfl, closing_accepts_fence, rfl⟩, rfl⟩

theorem lt_of_isBlankChar (h : isBlankChar c = true) : c < 0x80 := by
  simp only [isBlankChar, Bool.or_eq_true, beq_iff_eq] at h
  omega

theorem lt_of_isTagChar (h : isTagChar c = true) : c < 0x80 := by
  simp only [isTagChar, Bool.or_eq_true, Bool.and_eq_true, decide_eq_true_eq, beq_iff_eq] at h
  omega

theorem lt_of_lineEnd (h : lineEnd.Accepts w) : ∀ c ∈ w, c < 0x80 := by
  obtain ⟨cr, nl, hcr, ⟨n, hn, rfl⟩, rfl⟩ := h
  obtain rfl := of_decide_eq_true hn
  rcases hcr with ⟨r, hr, rfl⟩ | rfl
  · obtain rfl := of_decide_eq_true hr
    decide
  · decide

/-- The opening line is plain ASCII. -/
theorem exists_of_opening (h : opening.Accepts w) :
    (∀ c ∈ w, c < 0x80) ∧ ∃ v, w = 0x60 :: v := by
  obtain ⟨f, _, hf, ⟨b, _, hb, ⟨tag, _, htag, ⟨b', e, hb', he, rfl⟩, rfl⟩, rfl⟩, rfl⟩ := h
  obtain rfl := Pattern.accepts_literal.mp hf
  refine ⟨fun c hc => ?_, _, rfl⟩
  simp only [List.mem_append] at hc
  rcases hc with hc | hc | hc | hc | hc
  · revert c
    decide
  · exact lt_of_isBlankChar (hb c hc)
  · exact lt_of_isTagChar (htag c hc)
  · exact lt_of_isBlankChar (hb' c hc)
  · exact lt_of_lineEnd he c hc

theorem fence_infix_of_finds (h : fencedBlock.Finds t) : fence <:+: t := by
  obtain ⟨w, hw, hinfix⟩ := h
  obtain ⟨o, body, -, rfl⟩ := accepts_fencedBlock.mp hw
  exact ((List.suffix_append body fence).trans (List.suffix_append o _)).isInfix.trans hinfix

theorem not_finds_unfenced {strip : Text → Text} (hstrip : ∀ t, strip t <:+: t) (t : Text) :
    ¬ fencedBlock.Finds (unfenced strip t) := by
  rw [unfenced]
  split_ifs with hblocks
  · intro h
    have hempty : ¬ fencedBlock.Accepts [] := fun h => by
      obtain ⟨o, body, -, hw⟩ := accepts_fencedBlock.mp h
      simp [fence] at hw
    exact Pattern.not_finds_of_findAll hempty (List.map_eq_nil_iff.mp hblocks)
      (h.of_infix (hstrip t))
  · intro h
    refine fence_joinBlocks (fun b hb => ?_) ((fence_infix_of_finds h).trans (hstrip _))
    obtain ⟨groups, hgroups, rfl⟩ := List.mem_map.mp hb
    obtain ⟨body, rfl, -, hfence⟩ := exists_block hgroups
    exact fun hin => hfence (hin.trans (hstrip body))

/-- The worker's code units have a block only where the service's code points have one. -/
theorem finds_of_encode (h : fencedBlock.Finds (encode t)) : fencedBlock.Finds t := by
  obtain ⟨w, hw, x, y, hxy⟩ := h
  obtain ⟨o, body, ho, rfl⟩ := accepts_fencedBlock.mp hw
  obtain ⟨hascii, v, rfl⟩ := exists_of_opening ho
  have hbelow : ∀ c ∈ v, c < 0xD800 := fun c hc =>
    (hascii c (List.mem_cons_of_mem _ hc)).trans (by decide)
  obtain ⟨before, t₁, rfl, -, h₁⟩ := exists_of_encode_eq_append_cons (x := x)
    (c := 0x60) (by decide) (y := v ++ (body ++ (fence ++ y))) (by rw [← hxy]; simp)
  obtain ⟨t₂, rfl, h₂⟩ := exists_of_encode_eq_append hbelow h₁
  obtain ⟨body', t₃, rfl, -, h₃⟩ := exists_of_encode_eq_append_cons (c := 0x60) (by decide) h₂
  obtain ⟨after, rfl, -⟩ := exists_of_encode_eq_append (w := [0x60, 0x60]) (by decide) h₃
  refine ⟨0x60 :: v ++ (body' ++ fence), accepts_fencedBlock.mpr ⟨_, _, ho, rfl⟩, before, after, ?_⟩
  simp [fence]

/-! ## Spaces at the ends -/

theorem dropWhile_rdropWhile_infix (p : ℕ → Bool) (t : Text) :
    (t.dropWhile p).rdropWhile p <:+: t :=
  (List.rdropWhile_prefix p _).isInfix.trans (List.dropWhile_suffix p).isInfix

theorem bare_unfenced (t : Text) : Bare isSpace (TestGen.stripCodeFences t) := by
  rw [TestGen.stripCodeFences, unfenced]
  split_ifs
  · exact bare_dropWhile_rdropWhile isSpace _
  · exact bare_dropWhile_rdropWhile isSpace _

theorem mem_joinBlocks {bs : List Text} (h : c ∈ joinBlocks bs) :
    c = newline ∨ ∃ b ∈ bs, c ∈ b := by
  induction bs with
  | nil => cases h
  | cons b bs ih =>
    cases bs with
    | nil => exact .inr ⟨b, List.mem_cons_self, h⟩
    | cons b' bs =>
      change c ∈ b ++ newline :: newline :: joinBlocks (b' :: bs) at h
      rw [List.mem_append, List.mem_cons, List.mem_cons] at h
      rcases h with h | rfl | rfl | h
      · exact .inr ⟨b, List.mem_cons_self, h⟩
      · exact .inl rfl
      · exact .inl rfl
      · apply (ih h).imp_right
        rintro ⟨d, hd, hc⟩
        exact ⟨d, List.mem_cons_of_mem _ hd, hc⟩

theorem mem_unfenced {strip : Text → Text} (hstrip : ∀ t, strip t <:+: t)
    (h : c ∈ unfenced strip t) : c = newline ∨ c ∈ t := by
  rw [unfenced] at h
  split_ifs at h with hblocks
  · exact .inr ((hstrip t).subset h)
  · apply (mem_joinBlocks ((hstrip _).subset h)).imp_right
    rintro ⟨b, hb, hc⟩
    obtain ⟨groups, hgroups, rfl⟩ := List.mem_map.mp hb
    obtain ⟨body, rfl, hinfix, -⟩ := exists_block hgroups
    exact hinfix.subset ((hstrip body).subset hc)

/-- A surrogate is no white space. -/
theorem isWhiteSpace_unitsOf (hc : c < 0x110000) (hspace : isWhiteSpace c = false) :
    ∀ u ∈ unitsOf c, isWhiteSpace u = false := by
  rw [unitsOf]
  split
  · simpa using hspace
  · intro u hu
    have hrange : 0xD800 ≤ u ∧ u < 0xE000 := by
      simp only [List.mem_cons, List.not_mem_nil, or_false] at hu
      omega
    simp only [isWhiteSpace, Bool.or_eq_false_iff, Bool.and_eq_false_iff, decide_eq_false_iff_not,
      beq_eq_false_iff_ne]
    omega

theorem bare_encode (hbare : Bare isSpace t)
    (h : ∀ c ∈ t, c < 0x110000 ∧ isSpace c = isWhiteSpace c) : Bare isWhiteSpace (encode t) := by
  constructor
  · intro u hu
    cases t with
    | nil => cases hu
    | cons c t =>
      obtain ⟨hc, hsame⟩ := h c List.mem_cons_self
      refine isWhiteSpace_unitsOf hc (hsame ▸ hbare.head c rfl) u (List.mem_of_head? ?_)
      rw [encode_cons, List.head?_append] at hu
      have hsome : (unitsOf c).head?.isSome := by
        rw [unitsOf]
        split <;> rfl
      rw [Option.or_of_isSome hsome] at hu
      exact hu
  · intro u hu
    rcases List.eq_nil_or_concat' t with rfl | ⟨s, c, rfl⟩
    · cases hu
    · obtain ⟨hc, hsame⟩ := h c (by simp)
      refine isWhiteSpace_unitsOf hc (hsame ▸ hbare.last c (by simp)) u (List.mem_of_getLast? ?_)
      have hne : unitsOf c ≠ [] := by
        rw [unitsOf]
        split <;> exact List.cons_ne_nil _ _
      have hlast : encode [c] = unitsOf c := List.append_nil _
      rw [encode_append, hlast, List.getLast?_append_of_ne_nil _ hne] at hu
      exact hu

theorem unfenced_of_not_finds {strip : Text → Text} (h : ¬ fencedBlock.Finds t) :
    unfenced strip t = strip t := by
  rw [unfenced, Pattern.findAll_eq_nil h]
  rfl

/--
What the service has stored, the worker leaves as it is; and the service leaves it as it is too.
-/
theorem stripCodeFences_agree :
    (∀ text : Text, (∀ c ∈ text, c < 0x110000 ∧ isSpace c = isWhiteSpace c) →
      WorkspaceBuilder.stripCodeFences (encode (TestGen.stripCodeFences text)) =
        encode (TestGen.stripCodeFences text)) ∧
    ∀ text : Text, TestGen.stripCodeFences (TestGen.stripCodeFences text) =
      TestGen.stripCodeFences text := by
  have hstrip : ∀ t, strip t <:+: t := dropWhile_rdropWhile_infix isSpace
  have hnone : ∀ text, ¬ fencedBlock.Finds (TestGen.stripCodeFences text) :=
    not_finds_unfenced hstrip
  constructor
  · intro text htext
    have hchars : ∀ c ∈ TestGen.stripCodeFences text,
        c < 0x110000 ∧ isSpace c = isWhiteSpace c := fun c hc => by
      rcases mem_unfenced hstrip hc with rfl | hc
      · decide
      · exact htext c hc
    rw [WorkspaceBuilder.stripCodeFences,
      unfenced_of_not_finds fun h => hnone text (finds_of_encode h)]
    exact (bare_encode (bare_unfenced text) hchars).dropWhile_rdropWhile
  · intro text
    rw [TestGen.stripCodeFences, unfenced_of_not_finds (hnone text)]
    exact (bare_unfenced text).dropWhile_rdropWhile

/-- An answer in two fences, with a remark. -/
def answer : Text := text "Here you go:\n```js\nit('😀')\n```\nand\n``` ts\r\ntest()\r\n```"

theorem stripCodeFences_agree_answer :
    TestGen.stripCodeFences answer = text "it('😀')\n\ntest()" ∧
      WorkspaceBuilder.stripCodeFences (encode (TestGen.stripCodeFences answer)) =
        encode (TestGen.stripCodeFences answer) :=
  ⟨by decide +kernel, stripCodeFences_agree.1 answer (by decide +kernel)⟩

end AssureCode.Sandbox
