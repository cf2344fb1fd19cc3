import AssureCode.Js.Stringify

/-! # Texts the reader stops in

An array's text in which an item is missing, or is itself no value, is read up to there and no
further. The one missing item of `[]` is none.
-/

namespace AssureCode.Js

open Json

namespace Json.Reader

/-- Wherever a value is awaited, the reader does not get through the text. -/
def Stuck (t : Text) : Prop :=
  ∀ {e : Expected} {frames : List Frame}, Awaits e frames → run ⟨.between, e⟩ t = none

variable {r : Reader} {e e' : Expected} {frames : List Frame} {s t u : Text}

theorem Stuck.append (h : Stuck t) (u : Text) : Stuck (t ++ u) := by
  intro e frames he
  rw [run_append, h he, Option.bind_none]

/-- After a value and one more token, the reader is where the token leads. -/
theorem Reads.run_token {c : ℕ} {token : Token} (h : r.Reads s e)
    (hc : punctuation c = some token) :
    r.run (s ++ c :: t) = (e.step token).bind fun e' => run ⟨.between, e'⟩ t := by
  obtain ⟨r₁, h₁, hset⟩ := h
  obtain ⟨hn, hs⟩ := start_punctuation (e := e) hc
  rw [run_append, h₁, Option.bind_some, run_cons, step_of_settle hset hn, hs, emit]
  cases e.step token <;> rfl

/-- A token that is not allowed stops the reader. -/
theorem Reads.run_none {c : ℕ} {token : Token} (h : r.Reads s e)
    (hc : punctuation c = some token) (hstep : e.step token = none) :
    r.run (s ++ c :: t) = none := by
  rw [h.run_token hc, hstep, Option.bind_none]

/-- Text that is stuck after a token stops the reader. -/
theorem Reads.run_stuck {c : ℕ} {token : Token} (h : r.Reads s e)
    (hc : punctuation c = some token) (hstep : e.step token = some e') (he : Awaits e' frames)
    (ht : Stuck t) : r.run (s ++ c :: t) = none := by
  rw [h.run_token hc, hstep, Option.bind_some, ht he]

/-! ## Arrays -/

/-- The text of an item: the value it is, or else nothing or text without a value. -/
def ItemText (t : Text) : Option Json → Prop
  | some v => v.Plain ∧ t = v.stringify
  | none => t = [] ∨ Stuck t

/-- The items up to the closing bracket, after at least one. -/
theorem items_text {ts : List Text} {vs : List (Option Json)} {before : List Json}
    (h : List.Forall₂ ItemText ts vs) (hr : r.Reads s (.afterItem before frames)) :
    (∃ items, vs = items.map some ∧ PlainItems items ∧ ts = stringifyItems items) ∨
      none ∈ vs ∧ r.run (s ++ (ts.flatMap ([0x2C] ++ ·) ++ [0x5D])) = none := by
  induction h generalizing s before with
  | nil => exact .inl ⟨[], rfl, trivial, rfl⟩
  | @cons t v ts vs hitem hrest ih =>
    have hcomma : Expected.step (.afterItem before frames) .comma =
        some (.value (.items before :: frames)) := rfl
    cases v with
    | some v =>
      obtain ⟨hplain, rfl⟩ := hitem
      have hnext := hr.token 0x2C rfl hcomma (reads_stringify hplain (.inl rfl))
      rcases ih hnext with ⟨items, rfl, hitems, rfl⟩ | ⟨hnone, hrun⟩
      · exact .inl ⟨v :: items, rfl, ⟨hplain, hitems⟩, rfl⟩
      · refine .inr ⟨List.mem_cons_of_mem _ hnone, ?_⟩
        simpa [List.append_assoc] using hrun
    | none =>
      refine .inr ⟨List.mem_cons_self, ?_⟩
      rcases hitem with rfl | hstuck
      · -- nothing stands between the comma and what follows it
        have hread := hr.token 0x2C rfl hcomma (.nil _)
        cases ts with
        | nil => simpa using hread.run_none (t := []) (c := 0x5D) rfl rfl
        | cons t' ts =>
          have hstop := hread.run_none (t := t' ++ (ts.flatMap ([0x2C] ++ ·) ++ [0x5D]))
            (c := 0x2C) rfl rfl
          simpa [List.append_assoc] using hstop
      · have hstop := hr.run_stuck (c := 0x2C) rfl hcomma (.inl rfl)
          (hstuck.append (ts.flatMap ([0x2C] ++ ·) ++ [0x5D]))
        simpa [List.append_assoc] using hstop

theorem none_notMem_map_some {α : Type} (xs : List α) : none ∉ xs.map some := by simp

/-- The text of an array is that of its items, or the reader stops in it. -/
theorem array_text {ts : List Text} {vs : List (Option Json)} (h : List.Forall₂ ItemText ts vs)
    (hts : ts ≠ [[]]) :
    (∃ items, vs = items.map some ∧ PlainItems items ∧ ts = stringifyItems items) ∨
      none ∈ vs ∧ Stuck (0x5B :: join [0x2C] ts ++ [0x5D]) := by
  cases h with
  | nil => exact .inl ⟨[], rfl, trivial, rfl⟩
  | @cons t v ts vs hitem hrest =>
    cases v with
    | some v =>
      obtain ⟨hplain, rfl⟩ := hitem
      have hread : ∀ (e : Expected) (frames : List Frame), Awaits e frames →
          Reads ⟨.between, e⟩ (0x5B :: v.stringify) (.afterItem [v] frames) := by
        intro e frames he
        have hfirst := reads_stringify hplain (.inr ⟨frames, rfl, rfl⟩)
        exact (Reads.nil e).token 0x5B rfl he.openArray hfirst
      rcases items_text hrest (hread (.value []) [] (.inl rfl)) with
        ⟨items, rfl, hitems, rfl⟩ | ⟨hnone, -⟩
      · exact .inl ⟨v :: items, rfl, ⟨hplain, hitems⟩, rfl⟩
      · refine .inr ⟨List.mem_cons_of_mem _ hnone, ?_⟩
        intro e frames he
        rcases items_text hrest (hread e frames he) with ⟨items, rfl, -⟩ | ⟨-, hrun⟩
        · exact absurd hnone (none_notMem_map_some items)
        · simpa [join, List.append_assoc] using hrun
    | none =>
      refine .inr ⟨List.mem_cons_self, ?_⟩
      intro e frames he
      have hopen : Reads ⟨.between, e⟩ [0x5B] (.firstItem frames) :=
        (Reads.nil e).token 0x5B rfl he.openArray (.nil _)
      rcases hitem with rfl | hstuck
      · cases ts with
        | nil => exact absurd rfl hts
        | cons t' ts =>
          have hstop := hopen.run_none (t := t' ++ (ts.flatMap ([0x2C] ++ ·) ++ [0x5D]))
            (c := 0x2C) rfl rfl
          simpa [join, List.append_assoc] using hstop
      · have hstop := (Reads.nil e).run_stuck (c := 0x5B) rfl he.openArray (.inr ⟨frames, rfl, rfl⟩)
          (hstuck.append (ts.flatMap ([0x2C] ++ ·) ++ [0x5D]))
        simpa [join, List.append_assoc] using hstop

/-! ## Objects -/

/-- The text of a member: its key, and the value it has or text without a value. -/
def MemberText (t : Text) (m : Text × Option Json) : Prop :=
  ∃ u, t = quote m.1 ++ 0x3A :: u ∧
    m.2.elim (Stuck u) fun v => v.Plain ∧ u = v.stringify

/-- A member that is stuck, where a key may come. -/
theorem run_member_stuck {key : Text} {before : List (Text × Json)}
    (he : e.step (.scalar (.string key)) = some (.colon before key frames)) (hu : Stuck u) :
    run ⟨.between, e⟩ (quote key ++ 0x3A :: u) = none :=
  (reads_quote he).run_stuck rfl rfl (.inl rfl) hu

/-- The members up to the closing brace, after at least one. -/
theorem members_text {ts : List Text} {ms : List (Text × Option Json)}
    {before : List (Text × Json)} (h : List.Forall₂ MemberText ts ms)
    (hd : (before.map Prod.fst ++ ms.map Prod.fst).Nodup)
    (hr : r.Reads s (.afterMember before frames)) :
    (∃ members, ms = members.map (fun m => (m.1, some m.2)) ∧ PlainMembers members ∧
        ts = stringifyMembers members) ∨
      none ∈ ms.map Prod.snd ∧ r.run (s ++ (ts.flatMap ([0x2C] ++ ·) ++ [0x7D])) = none := by
  induction h generalizing s before with
  | nil => exact .inl ⟨[], rfl, trivial, rfl⟩
  | @cons t m ts ms hmember hrest ih =>
    obtain ⟨key, v⟩ := m
    obtain ⟨u, rfl, hu⟩ := hmember
    have hcomma : Expected.step (.afterMember before frames) .comma =
        some (.key before frames) := rfl
    cases v with
    | some v =>
      obtain ⟨hplain, rfl⟩ := hu
      have hkey : key ∉ before.map Prod.fst := by
        rw [List.nodup_append'] at hd
        exact fun hmem => hd.2.2 hmem List.mem_cons_self
      have hnext := hr.token 0x2C rfl hcomma
        (reads_member (e := .key before frames) (k := key) hplain rfl)
      rw [setMember_of_notMem v hkey] at hnext
      have hd' : ((before ++ [(key, v)]).map Prod.fst ++ ms.map Prod.fst).Nodup := by
        simpa using hd
      rcases ih hd' hnext with ⟨members, rfl, hmembers, rfl⟩ | ⟨hnone, hrun⟩
      · exact .inl ⟨(key, v) :: members, rfl, ⟨hplain, hmembers⟩, rfl⟩
      · refine .inr ⟨List.mem_cons_of_mem _ hnone, ?_⟩
        simpa [List.append_assoc] using hrun
    | none =>
      refine .inr ⟨List.mem_cons_self, ?_⟩
      have hstop : run ⟨.between, .key before frames⟩
          (quote key ++ 0x3A :: (u ++ (ts.flatMap ([0x2C] ++ ·) ++ [0x7D]))) = none :=
        run_member_stuck rfl (Stuck.append hu _)
      have hrun := hr.run_token (t := quote key ++ 0x3A ::
        (u ++ (ts.flatMap ([0x2C] ++ ·) ++ [0x7D]))) (c := 0x2C) rfl
      rw [hcomma, Option.bind_some, hstop] at hrun
      simpa [List.append_assoc] using hrun

/-- The text of an object is that of its members, or the reader stops in it. -/
theorem object_text {ts : List Text} {ms : List (Text × Option Json)}
    (h : List.Forall₂ MemberText ts ms) (hd : (ms.map Prod.fst).Nodup) :
    (∃ members, ms = members.map (fun m => (m.1, some m.2)) ∧ PlainMembers members ∧
        ts = stringifyMembers members) ∨
      none ∈ ms.map Prod.snd ∧ Stuck (0x7B :: join [0x2C] ts ++ [0x7D]) := by
  cases h with
  | nil => exact .inl ⟨[], rfl, trivial, rfl⟩
  | @cons t m ts ms hmember hrest =>
    obtain ⟨key, v⟩ := m
    obtain ⟨u, rfl, hu⟩ := hmember
    cases v with
    | some v =>
      obtain ⟨hplain, rfl⟩ := hu
      have hd' : (([(key, v)] : List (Text × Json)).map Prod.fst ++ ms.map Prod.fst).Nodup := hd
      have hread : ∀ (e : Expected) (frames : List Frame), Awaits e frames →
          Reads ⟨.between, e⟩ (0x7B :: (quote key ++ 0x3A :: v.stringify))
            (.afterMember [(key, v)] frames) := by
        intro e frames he
        have hfirst := reads_member (e := .firstKey frames) (k := key) hplain rfl
        rw [setMember_of_notMem v (by simp), List.nil_append] at hfirst
        exact (Reads.nil e).token 0x7B rfl he.openObject hfirst
      rcases members_text hrest hd' (hread (.value []) [] (.inl rfl)) with
        ⟨members, rfl, hmembers, rfl⟩ | ⟨hnone, -⟩
      · exact .inl ⟨(key, v) :: members, rfl, ⟨hplain, hmembers⟩, rfl⟩
      · refine .inr ⟨List.mem_cons_of_mem _ hnone, ?_⟩
        intro e frames he
        rcases members_text hrest hd' (hread e frames he) with ⟨members, rfl, -⟩ | ⟨-, hrun⟩
        · simp at hnone
        · simpa [join, List.append_assoc] using hrun
    | none =>
      refine .inr ⟨List.mem_cons_self, ?_⟩
      intro e frames he
      have hstop : run ⟨.between, .firstKey frames⟩
          (quote key ++ 0x3A :: (u ++ (ts.flatMap ([0x2C] ++ ·) ++ [0x7D]))) = none :=
        run_member_stuck rfl (Stuck.append hu _)
      have hrun := (Reads.nil e).run_token (t := quote key ++ 0x3A ::
        (u ++ (ts.flatMap ([0x2C] ++ ·) ++ [0x7D]))) (c := 0x7B) rfl
      rw [he.openObject, Option.bind_some, hstop] at hrun
      simpa [join, List.append_assoc] using hrun

/-- Text that is stuck is no JSON. -/
theorem parse_stuck (h : Stuck t) : parse t = none := by
  rw [parse, h (.inl rfl), Option.bind_none]

end Json.Reader

end AssureCode.Js
