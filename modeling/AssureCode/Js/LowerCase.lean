import AssureCode.Js.Stringify

/-! # Lower case

`String.prototype.toLowerCase` maps code points by the tables of Unicode, which are a parameter
here; only the capital sigma looks at its neighbours. What is in lower case stays as it is.
-/

namespace AssureCode.Js

/-- The code points of a text; a surrogate without its partner stands for itself. -/
def codePoints : Text → List ℕ
  | [] => []
  | [u] => [u]
  | u :: v :: t =>
    if isLeadSurrogate u && isTrailSurrogate v then
      (0x10000 + (u - 0xD800) * 0x400 + (v - 0xDC00)) :: codePoints t
    else u :: codePoints (v :: t)

/-- The code units of a code point. -/
def encode (c : ℕ) : Text :=
  if c < 0x10000 then [c]
  else [0xD800 + (c - 0x10000) / 0x400, 0xDC00 + (c - 0x10000) % 0x400]

def isSurrogate (c : ℕ) : Bool := isLeadSurrogate c || isTrailSurrogate c

def isCapitalSigma (c : ℕ) : Bool := c == 0x3A3

/-- The case tables of Unicode, with what is stable about them. -/
structure CaseTables where
  lower : ℕ → List ℕ
  cased : ℕ → Bool
  caseIgnorable : ℕ → Bool
  ne_nil : ∀ c, lower c ≠ []
  stable : ∀ c, ∀ d ∈ lower c, lower d = [d]
  surrogate : ∀ c, isSurrogate c = true → lower c = [c]
  scalar : ∀ c, isSurrogate c = false → ∀ d ∈ lower c, isSurrogate d = false ∧ d < 0x110000
  space : ∀ c, isWhiteSpace c = false → ∀ d ∈ lower c, isWhiteSpace d = false
  sigma : lower 0x3A3 = [0x3C3]
  finalSigma : lower 0x3C2 = [0x3C2]

namespace CaseTables

variable (tables : CaseTables)

/-- A cased letter stands before, and none follows; letters that case ignores do not count. -/
def isFinal (before after : List ℕ) : Bool :=
  (before.dropWhile tables.caseIgnorable).head?.any tables.cased &&
    !(after.dropWhile tables.caseIgnorable).head?.any tables.cased

def lowerAt (before : List ℕ) (c : ℕ) (after : List ℕ) : List ℕ :=
  if isCapitalSigma c && tables.isFinal before after then [0x3C2] else tables.lower c

/-- Code points in lower case, after those that came before, the nearest first. -/
def lowered : List ℕ → List ℕ → List ℕ
  | _, [] => []
  | before, c :: after => tables.lowerAt before c after ++ lowered (c :: before) after

/-- `t.toLowerCase()` -/
def toLowerCase (t : Text) : Text := (tables.lowered [] (codePoints t)).flatMap encode

end CaseTables

/-! ## Code points and code units -/

variable {tables : CaseTables} {before after ds : List ℕ} {c d u : ℕ} {s t : Text}

theorem codePoints_cons (h : isLeadSurrogate u = true → ∀ v ∈ t.head?, isTrailSurrogate v = false) :
    codePoints (u :: t) = u :: codePoints t := by
  cases t with
  | nil => rfl
  | cons v t =>
    rw [codePoints, if_neg]
    rw [Bool.and_eq_true]
    rintro ⟨hu, hv⟩
    rw [h hu v rfl] at hv
    cases hv

theorem codePoints_encode_append (hc : c < 0x110000)
    (h : isLeadSurrogate c = true → ∀ v ∈ t.head?, isTrailSurrogate v = false) :
    codePoints (encode c ++ t) = c :: codePoints t := by
  unfold encode
  split
  · exact codePoints_cons h
  · next hlarge =>
    have hlead : isLeadSurrogate (0xD800 + (c - 0x10000) / 0x400) = true := by
      simp only [isLeadSurrogate, Bool.and_eq_true, decide_eq_true_eq]
      omega
    have htrail : isTrailSurrogate (0xDC00 + (c - 0x10000) % 0x400) = true := by
      simp only [isTrailSurrogate, Bool.and_eq_true, decide_eq_true_eq]
      omega
    have hvalue : 0x10000 + (0xD800 + (c - 0x10000) / 0x400 - 0xD800) * 0x400 +
        (0xDC00 + (c - 0x10000) % 0x400 - 0xDC00) = c := by omega
    rw [List.cons_append, List.cons_append, List.nil_append, codePoints, hlead, htrail,
      Bool.and_self, if_pos rfl, hvalue]

theorem not_isLeadSurrogate (h : isSurrogate c = false) : ¬ isLeadSurrogate c = true := by
  rw [isSurrogate, Bool.or_eq_false_iff] at h
  rw [h.1]
  exact Bool.false_ne_true

theorem codePoints_flatMap_encode (h : ∀ d ∈ ds, isSurrogate d = false ∧ d < 0x110000) (t : Text) :
    codePoints (ds.flatMap encode ++ t) = ds ++ codePoints t := by
  induction ds with
  | nil => rfl
  | cons d ds ih =>
    obtain ⟨hd, hrest⟩ := List.forall_mem_cons.mp h
    rw [List.flatMap_cons, List.append_assoc, codePoints_encode_append hd.2, ih hrest,
      List.cons_append]
    exact fun hlead => absurd hlead (not_isLeadSurrogate hd.1)

/-- Only a trail surrogate itself starts with one. -/
theorem head_encode (hc : c < 0x110000) (h : isTrailSurrogate c = false) :
    ∀ v ∈ (encode c ++ t).head?, isTrailSurrogate v = false := by
  unfold encode
  split
  · rintro v ⟨⟩
    exact h
  · rintro v ⟨⟩
    simp only [isTrailSurrogate, Bool.and_eq_false_iff, decide_eq_false_iff_not]
    omega

/-! ## One code point -/

theorem lowerAt_ne_nil : tables.lowerAt before c after ≠ [] := by
  unfold CaseTables.lowerAt
  split
  · exact List.cons_ne_nil _ _
  · exact tables.ne_nil c

theorem lowerAt_stable (h : d ∈ tables.lowerAt before c after) :
    tables.lower d = [d] ∧ isCapitalSigma d = false := by
  have hstable : tables.lower d = [d] := by
    unfold CaseTables.lowerAt at h
    split at h
    · rw [List.mem_singleton.mp h]
      exact tables.finalSigma
    · exact tables.stable c d h
  refine ⟨hstable, ?_⟩
  by_contra hsigma
  rw [Bool.not_eq_false, isCapitalSigma, beq_iff_eq] at hsigma
  rw [hsigma, tables.sigma] at hstable
  exact absurd hstable (by decide)

theorem lowerAt_scalar (h : isSurrogate c = false) :
    ∀ d ∈ tables.lowerAt before c after, isSurrogate d = false ∧ d < 0x110000 := by
  unfold CaseTables.lowerAt
  split
  · rintro d hd
    rw [List.mem_singleton.mp hd]
    decide
  · exact tables.scalar c h

theorem lowerAt_surrogate (h : isSurrogate c = true) : tables.lowerAt before c after = [c] := by
  have hsigma : isCapitalSigma c = false := by
    by_contra hsigma
    rw [Bool.not_eq_false, isCapitalSigma, beq_iff_eq] at hsigma
    rw [hsigma] at h
    exact absurd h (by decide)
  rw [CaseTables.lowerAt, hsigma, Bool.false_and, if_neg Bool.false_ne_true,
    tables.surrogate c h]

theorem lowerAt_space (h : isWhiteSpace c = false) :
    ∀ d ∈ tables.lowerAt before c after, isWhiteSpace d = false := by
  unfold CaseTables.lowerAt
  split
  · rintro d hd
    rw [List.mem_singleton.mp hd]
    decide
  · exact tables.space c h

theorem lowerAt_lt (h : d ∈ tables.lowerAt before c after) : d < 0x110000 := by
  cases hc : isSurrogate c with
  | true =>
    rw [lowerAt_surrogate hc] at h
    rw [List.mem_singleton.mp h]
    simp only [isSurrogate, isLeadSurrogate, isTrailSurrogate, Bool.or_eq_true, Bool.and_eq_true,
      decide_eq_true_eq] at hc
    omega
  | false => exact (lowerAt_scalar hc d h).2

theorem codePoints_lowerAt (t : Text)
    (h : isLeadSurrogate c = true → ∀ v ∈ t.head?, isTrailSurrogate v = false) :
    codePoints ((tables.lowerAt before c after).flatMap encode ++ t) =
      tables.lowerAt before c after ++ codePoints t := by
  cases hc : isSurrogate c with
  | true =>
    have hmem : c ∈ tables.lowerAt before c after := by
      rw [lowerAt_surrogate hc]
      exact List.mem_singleton_self c
    have hlt : c < 0x110000 := lowerAt_lt hmem
    rw [lowerAt_surrogate hc, List.flatMap_singleton, codePoints_encode_append hlt h]
    rfl
  | false => exact codePoints_flatMap_encode (lowerAt_scalar hc) t

/-! ## Texts -/

/-- The first code point of a text is its first code unit, or the start of a pair. -/
theorem exists_codePoints_cons (u : ℕ) (t : Text) :
    ∃ c cs, codePoints (u :: t) = c :: cs ∧ (c = u ∨ 0x10000 ≤ c) := by
  cases t with
  | nil => exact ⟨u, [], rfl, .inl rfl⟩
  | cons v t =>
    rw [codePoints]
    split
    · exact ⟨_, _, rfl, .inr (by omega)⟩
    · exact ⟨u, _, rfl, .inl rfl⟩

/-- A text that does not start inside of a pair does not either in lower case. -/
theorem head_lowered (h : ∀ v ∈ t.head?, isTrailSurrogate v = false) :
    ∀ v ∈ ((tables.lowered before (codePoints t)).flatMap encode).head?,
      isTrailSurrogate v = false := by
  cases t with
  | nil =>
    intro v hv
    cases hv
  | cons u t =>
    obtain ⟨c, cs, hcs, hc⟩ := exists_codePoints_cons u t
    have htrail : isTrailSurrogate c = false := by
      rcases hc with rfl | hlarge
      · exact h c rfl
      · simp only [isTrailSurrogate, Bool.and_eq_false_iff, decide_eq_false_iff_not]
        omega
    obtain ⟨d, ds, hds⟩ : ∃ d ds, tables.lowerAt before c cs = d :: ds :=
      List.exists_cons_of_ne_nil lowerAt_ne_nil
    have hmem : d ∈ tables.lowerAt before c cs := by
      rw [hds]
      exact List.mem_cons_self
    have hd : isTrailSurrogate d = false := by
      cases hsur : isSurrogate c with
      | true =>
        rw [lowerAt_surrogate hsur] at hds
        cases hds
        exact htrail
      | false =>
        have hscalar := (lowerAt_scalar hsur d hmem).1
        rw [isSurrogate, Bool.or_eq_false_iff] at hscalar
        exact hscalar.2
    rw [hcs, CaseTables.lowered, hds, List.cons_append, List.flatMap_cons]
    exact head_encode (lowerAt_lt hmem) hd

/-- The code points of a text in lower case are those that were written. -/
theorem codePoints_lowered (t : Text) :
    codePoints ((tables.lowered before (codePoints t)).flatMap encode) =
      tables.lowered before (codePoints t) := by
  induction t using codePoints.induct generalizing before with
  | case1 => rfl
  | case2 u =>
    have hone : codePoints ((tables.lowerAt before u []).flatMap encode ++ []) = _ :=
      codePoints_lowerAt [] (by rintro _ v ⟨⟩)
    simpa [codePoints, CaseTables.lowered] using hone
  | case3 u v t hpair ih =>
    rw [codePoints, if_pos hpair, CaseTables.lowered, List.flatMap_append, codePoints_lowerAt, ih]
    intro hlead
    simp only [isLeadSurrogate, Bool.and_eq_true, decide_eq_true_eq] at hlead
    omega
  | case4 u v t hpair ih =>
    rw [codePoints, if_neg hpair, CaseTables.lowered, List.flatMap_append, codePoints_lowerAt, ih]
    intro hlead
    apply head_lowered
    rintro _ ⟨⟩
    rw [hlead, Bool.true_and, Bool.not_eq_true] at hpair
    exact hpair

theorem mem_lowered (h : d ∈ tables.lowered before ds) :
    ∃ before c after, c ∈ ds ∧ d ∈ tables.lowerAt before c after := by
  induction ds generalizing before with
  | nil => cases h
  | cons c ds ih =>
    rcases List.mem_append.mp h with h | h
    · exact ⟨before, c, ds, List.mem_cons_self, h⟩
    · obtain ⟨b, e, a, he, hd⟩ := ih h
      exact ⟨b, e, a, List.mem_cons_of_mem c he, hd⟩

theorem lowered_of_stable (h : ∀ d ∈ ds, tables.lower d = [d] ∧ isCapitalSigma d = false) :
    tables.lowered before ds = ds := by
  induction ds generalizing before with
  | nil => rfl
  | cons d ds ih =>
    obtain ⟨⟨hlower, hsigma⟩, hrest⟩ := List.forall_mem_cons.mp h
    rw [CaseTables.lowered, ih hrest, CaseTables.lowerAt, hsigma, Bool.false_and,
      if_neg Bool.false_ne_true, hlower]
    rfl

theorem toLowerCase_toLowerCase (t : Text) :
    tables.toLowerCase (tables.toLowerCase t) = tables.toLowerCase t := by
  have hstable : tables.lowered [] (tables.lowered [] (codePoints t)) =
      tables.lowered [] (codePoints t) := by
    apply lowered_of_stable
    intro d hd
    obtain ⟨before, c, after, -, hd⟩ := mem_lowered hd
    exact lowerAt_stable hd
  rw [CaseTables.toLowerCase, CaseTables.toLowerCase, codePoints_lowered, hstable]

/-! ## White space at the ends -/

/-- There is nothing to trim. -/
structure Trimmed (t : Text) : Prop where
  head : ∀ u ∈ t.head?, isWhiteSpace u = false
  last : ∀ u ∈ t.getLast?, isWhiteSpace u = false

theorem trim_of_trimmed (h : Trimmed t) : trim t = t :=
  Bare.dropWhile_rdropWhile ⟨h.head, h.last⟩

theorem trimmed_trim (t : Text) : Trimmed (trim t) :=
  have h := bare_dropWhile_rdropWhile isWhiteSpace t
  ⟨h.head, h.last⟩

theorem isWhiteSpace_of_large (h : 0x10000 ≤ c) : isWhiteSpace c = false := by
  simp only [isWhiteSpace, Bool.or_eq_false_iff, Bool.and_eq_false_iff, decide_eq_false_iff_not,
    beq_eq_false_iff_ne]
  omega

theorem isWhiteSpace_of_surrogate (h : 0xD800 ≤ u ∧ u ≤ 0xFEFE) : isWhiteSpace u = false := by
  simp only [isWhiteSpace, Bool.or_eq_false_iff, Bool.and_eq_false_iff, decide_eq_false_iff_not,
    beq_eq_false_iff_ne]
  omega

/-- The last code point of a text is its last code unit, or the end of a pair. -/
theorem exists_codePoints_concat (hne : t ≠ []) :
    ∃ cs c, codePoints t = cs ++ [c] ∧ (c ∈ t.getLast? ∨ 0x10000 ≤ c) := by
  induction t using codePoints.induct with
  | case1 => exact absurd rfl hne
  | case2 u => exact ⟨[], u, rfl, .inl rfl⟩
  | case3 u v t hpair ih =>
    rw [codePoints, if_pos hpair]
    rcases eq_or_ne t [] with rfl | ht
    · exact ⟨[], _, rfl, .inr (by omega)⟩
    · obtain ⟨cs, c, hcs, hc⟩ := ih ht
      obtain ⟨w, t, rfl⟩ := List.exists_cons_of_ne_nil ht
      exact ⟨_ :: cs, c, by rw [hcs, List.cons_append],
        by rwa [List.getLast?_cons_cons, List.getLast?_cons_cons]⟩
  | case4 u v t hpair ih =>
    rw [codePoints, if_neg hpair]
    obtain ⟨cs, c, hcs, hc⟩ := ih (List.cons_ne_nil v t)
    exact ⟨u :: cs, c, by rw [hcs, List.cons_append], by rwa [List.getLast?_cons_cons]⟩

theorem lowered_concat (cs : List ℕ) (c : ℕ) :
    ∃ ds, tables.lowered before (cs ++ [c]) =
      ds ++ tables.lowerAt (cs.reverse ++ before) c [] := by
  induction cs generalizing before with
  | nil => exact ⟨[], by simp [CaseTables.lowered]⟩
  | cons d cs ih =>
    obtain ⟨ds, hds⟩ := @ih (d :: before)
    refine ⟨tables.lowerAt before d (cs ++ [c]) ++ ds, ?_⟩
    rw [List.cons_append, CaseTables.lowered, hds]
    simp

theorem trimmed_toLowerCase (h : Trimmed t) : Trimmed (tables.toLowerCase t) := by
  rcases eq_or_ne t [] with rfl | hne
  · exact h
  constructor
  · obtain ⟨u, t, rfl⟩ := List.exists_cons_of_ne_nil hne
    obtain ⟨c, cs, hcs, hc⟩ := exists_codePoints_cons u t
    have hspace : isWhiteSpace c = false := by
      rcases hc with rfl | hlarge
      · exact h.head c rfl
      · exact isWhiteSpace_of_large hlarge
    obtain ⟨d, ds, hds⟩ : ∃ d ds, tables.lowerAt [] c cs = d :: ds :=
      List.exists_cons_of_ne_nil lowerAt_ne_nil
    have hmem : d ∈ tables.lowerAt [] c cs := by
      rw [hds]
      exact List.mem_cons_self
    have hd : isWhiteSpace d = false := lowerAt_space hspace d hmem
    have hlt : d < 0x110000 := lowerAt_lt hmem
    rw [CaseTables.toLowerCase, hcs, CaseTables.lowered, hds, List.cons_append, List.flatMap_cons]
    unfold encode
    split
    · rintro _ ⟨⟩
      exact hd
    · rintro _ ⟨⟩
      exact isWhiteSpace_of_surrogate (by omega)
  · obtain ⟨cs, c, hcs, hc⟩ := exists_codePoints_concat hne
    have hspace : isWhiteSpace c = false := by
      rcases hc with hc | hlarge
      · exact h.last c hc
      · exact isWhiteSpace_of_large hlarge
    obtain ⟨ds, hlowered⟩ : ∃ ds, tables.lowered [] (cs ++ [c]) = _ := lowered_concat cs c
    rcases List.eq_nil_or_concat' (tables.lowerAt (cs.reverse ++ []) c []) with hnil | ⟨es, d, hes⟩
    · exact absurd hnil lowerAt_ne_nil
    have hd : isWhiteSpace d = false := lowerAt_space hspace d (by rw [hes]; simp)
    rw [CaseTables.toLowerCase, hcs, hlowered, hes, ← List.append_assoc, List.flatMap_append,
      List.flatMap_singleton]
    unfold encode
    split
    · simp [hd]
    · have hunit : isWhiteSpace (0xDC00 + (d - 0x10000) % 0x400) = false :=
        isWhiteSpace_of_surrogate (by omega)
      simp [hunit]

/-! ## The letters of ASCII -/

def asciiLower (c : ℕ) : List ℕ :=
  if 0x41 ≤ c ∧ c ≤ 0x5A then [c + 0x20]
  else if c = 0x3A3 then [0x3C3]
  else if 0x110000 ≤ c then [0xFFFD]
  else [c]

theorem asciiLower_cases (c : ℕ) :
    (0x41 ≤ c ∧ c ≤ 0x5A ∧ asciiLower c = [c + 0x20]) ∨ (c = 0x3A3 ∧ asciiLower c = [0x3C3]) ∨
    (0x110000 ≤ c ∧ asciiLower c = [0xFFFD]) ∨
    (¬(0x41 ≤ c ∧ c ≤ 0x5A) ∧ c ≠ 0x3A3 ∧ c < 0x110000 ∧ asciiLower c = [c]) := by
  unfold asciiLower
  split
  · next h => exact .inl ⟨h.1, h.2, rfl⟩
  split
  · next h => exact .inr (.inl ⟨h, rfl⟩)
  split
  · next h => exact .inr (.inr (.inl ⟨h, rfl⟩))
  · next h hsigma hlarge => exact .inr (.inr (.inr ⟨h, hsigma, Nat.lt_of_not_le hlarge, rfl⟩))

theorem asciiLower_of_stable (h : ¬(0x41 ≤ c ∧ c ≤ 0x5A)) (hsigma : c ≠ 0x3A3)
    (hlt : c < 0x110000) : asciiLower c = [c] := by
  rw [asciiLower, if_neg h, if_neg hsigma, if_neg (by omega)]

theorem asciiLower_ne_nil (c : ℕ) : asciiLower c ≠ [] := by
  rcases asciiLower_cases c with ⟨-, -, h⟩ | ⟨-, h⟩ | ⟨-, h⟩ | ⟨-, -, -, h⟩
  all_goals
    rw [h]
    exact List.cons_ne_nil _ _

theorem asciiLower_stable (c d : ℕ) (hd : d ∈ asciiLower c) : asciiLower d = [d] := by
  rcases asciiLower_cases c with ⟨hc, hc', h⟩ | ⟨-, h⟩ | ⟨-, h⟩ | ⟨-, -, -, h⟩
  all_goals rw [h, List.mem_singleton] at hd
  · exact asciiLower_of_stable (by omega) (by omega) (by omega)
  · rw [hd]
    decide
  · rw [hd]
    decide
  · rw [hd, h]

theorem asciiLower_surrogate (c : ℕ) (hc : isSurrogate c = true) : asciiLower c = [c] := by
  simp only [isSurrogate, isLeadSurrogate, isTrailSurrogate, Bool.or_eq_true, Bool.and_eq_true,
    decide_eq_true_eq] at hc
  exact asciiLower_of_stable (by omega) (by omega) (by omega)

theorem asciiLower_scalar (c : ℕ) (hc : isSurrogate c = false) (d : ℕ) (hd : d ∈ asciiLower c) :
    isSurrogate d = false ∧ d < 0x110000 := by
  simp only [isSurrogate, isLeadSurrogate, isTrailSurrogate, Bool.or_eq_false_iff,
    Bool.and_eq_false_iff, decide_eq_false_iff_not] at hc ⊢
  rcases asciiLower_cases c with ⟨h, h', hlower⟩ | ⟨-, hlower⟩ | ⟨-, hlower⟩ | ⟨-, -, h, hlower⟩
  all_goals
    rw [hlower, List.mem_singleton] at hd
    omega

theorem asciiLower_space (c : ℕ) (hc : isWhiteSpace c = false) (d : ℕ) (hd : d ∈ asciiLower c) :
    isWhiteSpace d = false := by
  simp only [isWhiteSpace, Bool.or_eq_false_iff, Bool.and_eq_false_iff, decide_eq_false_iff_not,
    beq_eq_false_iff_ne] at hc ⊢
  rcases asciiLower_cases c with ⟨h, h', hlower⟩ | ⟨-, hlower⟩ | ⟨-, hlower⟩ | ⟨-, -, -, hlower⟩
  all_goals
    rw [hlower, List.mem_singleton] at hd
    omega

theorem asciiLower_sigma : asciiLower 0x3A3 = [0x3C3] := rfl

theorem asciiLower_finalSigma : asciiLower 0x3C2 = [0x3C2] := rfl

/-- Tables in which only ASCII has case, but for the letter that has a table of its own. -/
def asciiTables : CaseTables where
  lower := asciiLower
  cased c := (0x41 ≤ c && c ≤ 0x5A) || (0x61 ≤ c && c ≤ 0x7A)
  caseIgnorable c := c == 0x27
  ne_nil := asciiLower_ne_nil
  stable := asciiLower_stable
  surrogate := asciiLower_surrogate
  scalar := asciiLower_scalar
  space := asciiLower_space
  sigma := asciiLower_sigma
  finalSigma := asciiLower_finalSigma

end AssureCode.Js
