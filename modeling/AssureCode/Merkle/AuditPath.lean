import Mathlib.Data.List.Induction
import Mathlib.Data.Set.Function
import AssureCode.Merkle.TreeHash

/-! # Audit paths

A leaf is shown to be under a root by the siblings on the way up. Top down they are the parts that
the cuts leave aside; bottom up they are the neighbours on each level, none where a node is
promoted. When the hashes that are compared come from different preimages only if they differ, no
other path leads from a leaf to the root, and no other list has it.
-/

namespace AssureCode.Merkle

universe u

variable {α : Type u}

/-- The side of a sibling. -/
inductive Side | left | right
  deriving DecidableEq, Repr

section Path

variable (node : α → α → α) (empty : α)

/-- The pair that is hashed with a sibling. -/
def pair (a : α) : α × Side → α × α
  | (b, .left) => (b, a)
  | (b, .right) => (a, b)

/-- The way up, from the first sibling to the last. -/
def climb (a : α) (path : List (α × Side)) : α :=
  path.foldl (fun a b => Function.uncurry node (pair a b)) a

/-- The siblings of a leaf, the lowest one first. -/
def auditPath (l : List α) (i : ℕ) : List (α × Side) :=
  if 2 ≤ l.length then
    let k := split l.length
    if i < k then auditPath (l.take k) i ++ [(treeHash node empty (l.drop k), .right)]
    else auditPath (l.drop k) (i - k) ++ [(treeHash node empty (l.take k), .left)]
  else []
termination_by l.length
decreasing_by
  · have := split_lt (n := l.length) ‹_›
    simp only [List.length_take]
    omega
  · have := split_pos l.length
    simp only [List.length_drop]
    omega

/-- The neighbour of a node on its level. -/
def neighbour (l : List α) (i : ℕ) : Option (α × Side) :=
  if i % 2 = 1 then l[i - 1]?.map (·, .left) else l[i + 1]?.map (·, .right)

variable {node empty} {l l' : List α} {a : α} {b : α × Side} {path : List (α × Side)} {i k : ℕ}

@[simp] theorem climb_nil (a : α) : climb node a [] = a := rfl

theorem climb_concat (a : α) (path : List (α × Side)) (b : α × Side) :
    climb node a (path ++ [b]) = Function.uncurry node (pair (climb node a path) b) := by
  rw [climb, List.foldl_append]
  rfl

theorem auditPath_short (h : l.length < 2) : auditPath node empty l i = [] := by
  rw [auditPath, if_neg (by omega)]

theorem auditPath_take (h : 2 ≤ l.length) (hi : i < split l.length) :
    auditPath node empty l i = auditPath node empty (l.take (split l.length)) i ++
      [(treeHash node empty (l.drop (split l.length)), .right)] := by
  rw [auditPath, if_pos h]
  exact if_pos hi

theorem auditPath_drop (h : 2 ≤ l.length) (hi : split l.length ≤ i) :
    auditPath node empty l i =
      auditPath node empty (l.drop (split l.length)) (i - split l.length) ++
        [(treeHash node empty (l.take (split l.length)), .left)] := by
  rw [auditPath, if_pos h]
  exact if_neg hi.not_gt

theorem length_take_split (h : 2 ≤ l.length) : (l.take (split l.length)).length = split l.length :=
  List.length_take_of_le (split_lt h).le

/-- The audit path of a leaf leads to the tree hash. -/
theorem climb_auditPath (l : List α) (h : i < l.length) :
    climb node l[i] (auditPath node empty l i) = treeHash node empty l := by
  induction hn : l.length using Nat.strong_induction_on generalizing l i with
  | _ n ih =>
    rcases Nat.lt_or_ge l.length 2 with hshort | hlong
    · obtain ⟨b, rfl⟩ := List.length_eq_one_iff.mp (show l.length = 1 by omega)
      obtain rfl : i = 0 := by simpa using h
      rw [auditPath_short hshort, treeHash_singleton]
      rfl
    · have hlt := split_lt hlong
      have hpos := split_pos l.length
      have htake := length_take_split hlong
      rw [treeHash_split hlong]
      rcases Nat.lt_or_ge i (split l.length) with hi | hi
      · have hclimb := ih _ (hn ▸ hlt) (l.take (split l.length)) (htake ▸ hi) htake
        rw [List.getElem_take] at hclimb
        rw [auditPath_take hlong hi, climb_concat, hclimb]
        rfl
      · have hlen : (l.drop (split l.length)).length = l.length - split l.length :=
          List.length_drop
        have hclimb := ih _ (by omega) (l.drop (split l.length)) (i := i - split l.length)
          (by omega) hlen
        simp only [List.getElem_drop, Nat.add_sub_cancel' hi] at hclimb
        rw [auditPath_drop hlong hi, climb_concat, hclimb]
        rfl

end Path

/-! ## Bottom up -/

section Levels

variable {node : α → α → α} {empty : α} {l : List α} {i k : ℕ}

theorem neighbour_take (hk : Even k) (hi : i < k) : neighbour (l.take k) i = neighbour l i := by
  obtain ⟨m, rfl⟩ := hk
  unfold neighbour
  split
  · rw [List.getElem?_take_of_lt (by omega)]
  · rw [List.getElem?_take_of_lt (by omega)]

theorem neighbour_drop (hk : Even k) (hi : k ≤ i) :
    neighbour (l.drop k) (i - k) = neighbour l i := by
  obtain ⟨m, rfl⟩ := hk
  unfold neighbour
  rw [List.getElem?_drop, List.getElem?_drop, show (i - (m + m)) % 2 = i % 2 by omega]
  split
  · rw [show m + m + (i - (m + m) - 1) = i - 1 by omega]
  · rw [show m + m + (i - (m + m) + 1) = i + 1 by omega]

/-- An audit path is the neighbour on the lowest level, if any, and one on the level above. -/
theorem auditPath_above (l : List α) (h : i < l.length) :
    auditPath node empty l i =
      (neighbour l i).toList ++ auditPath node empty (above node l) (i / 2) := by
  induction hn : l.length using Nat.strong_induction_on generalizing l i with
  | _ n ih =>
    rcases Nat.lt_or_ge 2 n with hlong | hshort
    · -- the level above is cut at half of the place
      have hcut := split_half hlong
      have hlt := split_lt (n := n) (by omega)
      have hpos := split_pos ((n + 1) / 2)
      have heven : Even (split n) := by rw [hcut]; exact even_two_mul _
      have hlen : (above node l).length = (n + 1) / 2 := by rw [length_above, hn]
      have htake : (l.take (split n)).length = split n := by rw [List.length_take]; omega
      have hdrop : (l.drop (split n)).length = n - split n := by rw [List.length_drop, hn]
      have hsplit :
          above node l = above node (l.take (split n)) ++ above node (l.drop (split n)) := by
        conv_lhs => rw [← List.take_append_drop (split n) l]
        exact above_append _ (by rwa [htake])
      have hhalf : (above node (l.take (split n))).length = split ((n + 1) / 2) := by
        rw [length_above, htake]
        omega
      have htaken : (above node l).take (split (above node l).length) =
          above node (l.take (split n)) := by rw [hlen, hsplit, List.take_left' hhalf]
      have hdropped : (above node l).drop (split (above node l).length) =
          above node (l.drop (split n)) := by rw [hlen, hsplit, List.drop_left' hhalf]
      rcases Nat.lt_or_ge i (split n) with hi | hi
      · have hpath := ih _ hlt (l.take (split n)) (htake ▸ hi) htake
        rw [auditPath_take (by omega) (hn ▸ hi), auditPath_take (l := above node l) (by omega)
          (by rw [hlen]; omega), htaken, hdropped, treeHash_above, hn, hpath,
          neighbour_take heven hi, List.append_assoc]
      · have hpath := ih _ (by omega) (l.drop (split n)) (i := i - split n) (by omega) hdrop
        have hindex : (i - split n) / 2 = i / 2 - split (above node l).length := by
          rw [hlen]
          omega
        rw [auditPath_drop (by omega) (hn ▸ hi), auditPath_drop (l := above node l) (by omega)
          (by rw [hlen]; omega), htaken, hdropped, treeHash_above, hn, hpath,
          neighbour_drop heven hi, hindex, List.append_assoc]
    · match l, hn with
      | [a], _ =>
        obtain rfl : i = 0 := by simpa using h
        rfl
      | [a, b], _ =>
        have hcut : split [a, b].length = 1 := by simp [split]
        have habove : auditPath node empty (above node [a, b]) (i / 2) = [] :=
          auditPath_short (by simp [above])
        rcases Nat.lt_or_ge i 1 with hi | hi
        · obtain rfl : i = 0 := by omega
          rw [habove, auditPath_take le_rfl (by rw [hcut]; exact hi), hcut,
            auditPath_short (by simp)]
          simp [neighbour]
        · obtain rfl : i = 1 := by simp only [List.length_cons, List.length_nil] at h; omega
          rw [habove, auditPath_drop le_rfl (by rw [hcut]), hcut, auditPath_short (by simp)]
          simp [neighbour]
      | _ :: _ :: _ :: _, hn =>
        simp only [List.length_cons] at hn
        omega

/-- A path has at most one neighbour for each halving of the leaves. -/
theorem length_auditPath_le (l : List α) (h : i < l.length) :
    (auditPath node empty l i).length ≤ Nat.clog 2 l.length := by
  induction hn : l.length using Nat.strong_induction_on generalizing l i with
  | _ n ih =>
    rcases Nat.lt_or_ge n 2 with hshort | hlong
    · rw [auditPath_short (by omega)]
      exact Nat.zero_le _
    · have habove : (above node l).length = (n + 1) / 2 := by rw [length_above, hn]
      have hrest := ih _ (by omega) (above node l) (i := i / 2) (by omega) habove
      have hstep : (neighbour l i).toList.length ≤ 1 := Option.length_toList_le
      have hlog : Nat.clog 2 n = Nat.clog 2 ((n + 1) / 2) + 1 :=
        Nat.clog_of_one_lt (by decide) hlong
      rw [auditPath_above l h, List.length_append, hlog]
      omega

end Levels

/-! ## What a root binds -/

section Binding

variable (node : α → α → α) (empty : α)

/-- The pairs that are hashed in a tree. -/
def joins (l : List α) : List (α × α) :=
  if 2 ≤ l.length then
    let k := split l.length
    (treeHash node empty (l.take k), treeHash node empty (l.drop k)) ::
      (joins (l.take k) ++ joins (l.drop k))
  else []
termination_by l.length
decreasing_by
  · have := split_lt (n := l.length) ‹_›
    simp only [List.length_take]
    omega
  · have := split_pos l.length
    simp only [List.length_drop]
    omega

/-- The pairs that are hashed on a way up. -/
def joinsAlong (a : α) : List (α × Side) → List (α × α)
  | [] => []
  | b :: path => pair a b :: joinsAlong (Function.uncurry node (pair a b)) path

/-- The node hash tells the pairs apart, and none of them has the hash of a leaf. -/
structure Separated (leaves : Set α) (pairs : Set (α × α)) : Prop where
  injOn : Set.InjOn (Function.uncurry node) pairs
  apart : ∀ a ∈ leaves, ∀ p ∈ pairs, a ≠ Function.uncurry node p

variable {node empty} {leaves : Set α} {pairs : Set (α × α)} {l l' : List α} {a : α}
  {b : α × Side} {path : List (α × Side)} {i : ℕ}

theorem joins_split (h : 2 ≤ l.length) :
    joins node empty l =
      (treeHash node empty (l.take (split l.length)),
        treeHash node empty (l.drop (split l.length))) ::
      (joins node empty (l.take (split l.length)) ++
        joins node empty (l.drop (split l.length))) := by
  rw [joins, if_pos h]

theorem joinsAlong_concat (a : α) (path : List (α × Side)) (b : α × Side) :
    joinsAlong node a (path ++ [b]) = joinsAlong node a path ++ [pair (climb node a path) b] := by
  induction path generalizing a with
  | nil => rfl
  | cons c path ih => rw [List.cons_append, joinsAlong, ih]; rfl

variable (node empty) in
/-- The tree hash of a list is a leaf, or the hash of a pair of the tree. -/
theorem treeHash_cases (hne : l ≠ []) :
    (∃ a, l = [a] ∧ treeHash node empty l = a) ∨
      2 ≤ l.length ∧ treeHash node empty l = Function.uncurry node
        (treeHash node empty (l.take (split l.length)),
          treeHash node empty (l.drop (split l.length))) := by
  match l, hne with
  | [a], _ => exact .inl ⟨a, rfl, treeHash_singleton a⟩
  | a :: b :: l, _ =>
    have hlong : 2 ≤ (a :: b :: l).length := by simp
    exact .inr ⟨hlong, treeHash_split hlong⟩

theorem take_split_ne_nil (h : 2 ≤ l.length) : l.take (split l.length) ≠ [] := by
  have hpos := split_pos l.length
  have hlen := length_take_split h
  exact List.ne_nil_of_length_pos (by omega)

theorem drop_split_ne_nil (h : 2 ≤ l.length) : l.drop (split l.length) ≠ [] := by
  have hlt := split_lt h
  exact List.ne_nil_of_length_pos (by rw [List.length_drop]; omega)

/-! What the leaves and every hash of a pair have, everything that is hashed has. -/

theorem treeHash_of_forall {P : α → Prop} (hnode : ∀ a b, P (node a b)) (hne : l ≠ [])
    (hl : ∀ x ∈ l, P x) : P (treeHash node empty l) := by
  rcases treeHash_cases node empty hne with ⟨x, rfl, htree⟩ | ⟨-, htree⟩
  · rw [htree]
    exact hl x (by simp)
  · rw [htree]
    exact hnode _ _

theorem joins_of_forall {P : α → Prop} (hnode : ∀ a b, P (node a b)) (hl : ∀ x ∈ l, P x) :
    ∀ p ∈ joins node empty l, P p.1 ∧ P p.2 := by
  induction hn : l.length using Nat.strong_induction_on generalizing l with
  | _ n ih =>
    rcases Nat.lt_or_ge l.length 2 with hshort | hlong
    · rw [joins, if_neg (by omega)]
      simp
    · have hlt := split_lt hlong
      have hpos := split_pos l.length
      have htake : ∀ x ∈ l.take (split l.length), P x := fun x hx => hl x (List.mem_of_mem_take hx)
      have hdrop : ∀ x ∈ l.drop (split l.length), P x := fun x hx => hl x (List.mem_of_mem_drop hx)
      rw [joins_split hlong, List.forall_mem_cons, List.forall_mem_append]
      exact ⟨⟨treeHash_of_forall hnode (take_split_ne_nil hlong) htake,
          treeHash_of_forall hnode (drop_split_ne_nil hlong) hdrop⟩,
        ih _ (hn ▸ hlt) htake (length_take_split hlong),
        ih _ (by omega) hdrop List.length_drop⟩

theorem auditPath_of_forall {P : α → Prop} (hnode : ∀ a b, P (node a b)) (hl : ∀ x ∈ l, P x) :
    ∀ b ∈ auditPath node empty l i, P b.1 := by
  induction hn : l.length using Nat.strong_induction_on generalizing l i with
  | _ n ih =>
    rcases Nat.lt_or_ge l.length 2 with hshort | hlong
    · rw [auditPath_short hshort]
      simp
    · have hlt := split_lt hlong
      have hpos := split_pos l.length
      have htake : ∀ x ∈ l.take (split l.length), P x := fun x hx => hl x (List.mem_of_mem_take hx)
      have hdrop : ∀ x ∈ l.drop (split l.length), P x := fun x hx => hl x (List.mem_of_mem_drop hx)
      rcases Nat.lt_or_ge i (split l.length) with hi | hi
      · rw [auditPath_take hlong hi, List.forall_mem_append, List.forall_mem_singleton]
        exact ⟨ih _ (hn ▸ hlt) htake (length_take_split hlong),
          treeHash_of_forall hnode (drop_split_ne_nil hlong) hdrop⟩
      · rw [auditPath_drop hlong hi, List.forall_mem_append, List.forall_mem_singleton]
        exact ⟨ih _ (by omega) hdrop List.length_drop,
          treeHash_of_forall hnode (take_split_ne_nil hlong) htake⟩

theorem joinsAlong_of_forall {P : α → Prop} (hnode : ∀ a b, P (node a b)) (ha : P a)
    (hpath : ∀ b ∈ path, P b.1) : ∀ p ∈ joinsAlong node a path, P p.1 ∧ P p.2 := by
  induction path generalizing a with
  | nil => simp [joinsAlong]
  | cons b path ih =>
    obtain ⟨hb, hrest⟩ := List.forall_mem_cons.mp hpath
    refine List.forall_mem_cons.mpr ⟨?_, ih (hnode _ _) hrest⟩
    obtain ⟨c, _ | _⟩ := b
    · exact ⟨hb, ha⟩
    · exact ⟨ha, hb⟩

/-- A way up from a leaf to the tree hash is the audit path of that leaf. -/
theorem eq_auditPath_of_climb (hs : Separated node leaves pairs) (ha : a ∈ leaves)
    (hpath : ∀ p ∈ joinsAlong node a path, p ∈ pairs) (hne : l ≠ []) (hl : ∀ x ∈ l, x ∈ leaves)
    (hjoins : ∀ p ∈ joins node empty l, p ∈ pairs)
    (h : climb node a path = treeHash node empty l) :
    ∃ i, l[i]? = some a ∧ path = auditPath node empty l i := by
  induction path using List.reverseRecOn generalizing l with
  | nil =>
    rcases treeHash_cases node empty hne with
      ⟨x, rfl, htree⟩ | ⟨hlong, htree⟩
    · rw [htree] at h
      exact ⟨0, congrArg some h.symm, (auditPath_short (by simp)).symm⟩
    · rw [joins_split hlong] at hjoins
      exact absurd (h.trans htree) (hs.apart a ha _ (hjoins _ List.mem_cons_self))
  | append_singleton path b ih =>
    rw [joinsAlong_concat, List.forall_mem_append, List.forall_mem_singleton] at hpath
    rw [climb_concat] at h
    rcases treeHash_cases node empty hne with
      ⟨x, rfl, htree⟩ | ⟨hlong, htree⟩
    · exact absurd (htree.symm.trans h.symm) (hs.apart x (hl x (by simp)) _ hpath.2)
    · rw [joins_split hlong, List.forall_mem_cons, List.forall_mem_append] at hjoins
      obtain ⟨htop, htake, hdrop⟩ := hjoins
      have hpair := hs.injOn hpath.2 htop (h.trans htree)
      have hlen := length_take_split hlong
      obtain ⟨c, _ | _⟩ := b
      · obtain ⟨rfl, hup⟩ := Prod.mk.inj hpair
        obtain ⟨i, hi, rfl⟩ := ih hpath.1 (drop_split_ne_nil hlong)
          (fun x hx => hl x (List.mem_of_mem_drop hx)) hdrop hup
        rw [List.getElem?_drop] at hi
        refine ⟨split l.length + i, hi, ?_⟩
        rw [auditPath_drop hlong (by omega), Nat.add_sub_cancel_left]
      · obtain ⟨hup, rfl⟩ := Prod.mk.inj hpair
        obtain ⟨i, hi, rfl⟩ := ih hpath.1 (take_split_ne_nil hlong)
          (fun x hx => hl x (List.mem_of_mem_take hx)) htake hup
        have hlt : i < split l.length := hlen ▸ (List.getElem?_eq_some_iff.mp hi).1
        rw [List.getElem?_take_of_lt hlt] at hi
        exact ⟨i, hi, (auditPath_take hlong hlt).symm⟩

/-- The tree hash has one list of leaves. -/
theorem treeHash_inj (hs : Separated node leaves pairs) (hne : l ≠ []) (hne' : l' ≠ [])
    (hl : ∀ x ∈ l, x ∈ leaves) (hl' : ∀ x ∈ l', x ∈ leaves)
    (hjoins : ∀ p ∈ joins node empty l, p ∈ pairs)
    (hjoins' : ∀ p ∈ joins node empty l', p ∈ pairs)
    (h : treeHash node empty l = treeHash node empty l') : l = l' := by
  induction hn : l.length using Nat.strong_induction_on generalizing l l' with
  | _ n ih =>
    rcases treeHash_cases node empty hne with
      ⟨x, rfl, htree⟩ | ⟨hlong, htree⟩ <;>
    rcases treeHash_cases node empty hne' with
      ⟨y, rfl, htree'⟩ | ⟨hlong', htree'⟩
    · rw [htree, htree'] at h
      rw [h]
    · rw [joins_split hlong'] at hjoins'
      exact absurd ((htree.symm.trans h).trans htree')
        (hs.apart x (hl x (by simp)) _ (hjoins' _ List.mem_cons_self))
    · rw [joins_split hlong] at hjoins
      exact absurd ((htree'.symm.trans h.symm).trans htree)
        (hs.apart y (hl' y (by simp)) _ (hjoins _ List.mem_cons_self))
    · rw [joins_split hlong, List.forall_mem_cons, List.forall_mem_append] at hjoins
      rw [joins_split hlong', List.forall_mem_cons, List.forall_mem_append] at hjoins'
      obtain ⟨htop, htake, hdrop⟩ := hjoins
      obtain ⟨htop', htake', hdrop'⟩ := hjoins'
      have hlt := split_lt hlong
      have hpos := split_pos l.length
      obtain ⟨hleft, hright⟩ :=
        Prod.mk.inj (hs.injOn htop htop' ((htree.symm.trans h).trans htree'))
      have hbefore := ih _ (hn ▸ hlt) (take_split_ne_nil hlong) (take_split_ne_nil hlong')
        (fun x hx => hl x (List.mem_of_mem_take hx)) (fun x hx => hl' x (List.mem_of_mem_take hx))
        htake htake' hleft (length_take_split hlong)
      have hafter := ih _ (show l.length - split l.length < n by omega) (drop_split_ne_nil hlong)
        (drop_split_ne_nil hlong') (fun x hx => hl x (List.mem_of_mem_drop hx))
        (fun x hx => hl' x (List.mem_of_mem_drop hx)) hdrop hdrop' hright List.length_drop
      rw [← List.take_append_drop (split l.length) l, hbefore, hafter, List.take_append_drop]

end Binding

end AssureCode.Merkle
