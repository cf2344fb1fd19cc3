import Mathlib.Algebra.Order.Field.Rat
import Mathlib.Data.List.Lex
import Mathlib.Data.List.Sort
import AssureCode.Python.Text
import AssureCode.Transition.Reported

/-! # The graph of freelancers

Three adapters read freelancer profiles and write their trust scores. Those for a live backend fall
back to a dictionary of the process when the backend does not answer.
-/

namespace AssureCode.Graph

open Js Python

/-- A profile, without its embedding. -/
structure FreelancerProfile where
  id : Text
  name : Text
  trustScore : ℚ
  skills : List Text
  deliveries : ℕ := 0
  avgAst : ℚ := 0
  hourlyRateCents : ℕ := 0
  deriving DecidableEq

/-- Rows with a unique key. -/
structure Keyed {α : Type} (key : α → Text) where
  rows : List α
  distinct : (rows.map key).Nodup

namespace Keyed

variable {α : Type} {key : α → Text}

def has (t : Keyed key) (id : Text) : Bool := t.rows.any fun a => key a = id

theorem map_key {f : α → α} (hf : ∀ a, key (f a) = key a) (rows : List α) (id : Text) :
    (rows.map fun a => if key a = id then f a else a).map key = rows.map key := by
  rw [List.map_map]
  apply List.map_congr_left
  intro a _
  simp only [Function.comp_apply]
  split
  · exact hf a
  · rfl

/-- The row with the key, if there is one, is changed. -/
def update (t : Keyed key) (id : Text) (f : α → α) (hf : ∀ a, key (f a) = key a) :
    Keyed key where
  rows := t.rows.map fun a => if key a = id then f a else a
  distinct := map_key hf t.rows id ▸ t.distinct

end Keyed

/-- The dictionary, or the table, of profiles. -/
abbrev Profiles : Type := Keyed FreelancerProfile.id

def Profiles.setTrust (t : Profiles) (id : Text) (trustScore : ℚ) : Profiles :=
  t.update id (fun p => { p with trustScore }) fun _ => rfl

/-! ## In memory -/

structure InMemoryGraphRepo where
  freelancers : Profiles

namespace InMemoryGraphRepo

def fixture : List FreelancerProfile := [
  { id := text "freelancer-priya", name := text "Priya Sharma", trustScore := 92 / 100
    skills := ["docker", "fastify", "node.js", "postgresql", "react", "typescript"].map text
    deliveries := 18, avgAst := 87, hourlyRateCents := 8500 },
  { id := text "freelancer-marcus", name := text "Marcus Lindgren", trustScore := 81 / 100
    skills := ["aws", "docker", "fastapi", "postgresql", "python", "redis"].map text
    deliveries := 11, avgAst := 79, hourlyRateCents := 7200 },
  { id := text "freelancer-aisha", name := text "Aisha Okafor", trustScore := 76 / 100
    skills := ["cypress", "jest", "react", "tailwind", "typescript"].map text
    deliveries := 7, avgAst := 83, hourlyRateCents := 6000 },
  { id := text "freelancer-tomas", name := text "Tomás Rivera", trustScore := 64 / 100
    skills := ["docker", "node.js", "postgresql", "react"].map text
    deliveries := 4, avgAst := 71, hourlyRateCents := 4500 },
  { id := text "freelancer-elena", name := text "Elena Rostova", trustScore := 95 / 100
    skills := ["docker", "go", "owasp", "postgresql", "python", "rust", "security"].map text
    deliveries := 22, avgAst := 91, hourlyRateCents := 9500 },
  { id := text "freelancer-chen", name := text "Wei Chen", trustScore := 88 / 100
    skills := ["ethereum", "hardhat", "react", "solidity", "typescript", "web3"].map text
    deliveries := 14, avgAst := 84, hourlyRateCents := 9000 },
  { id := text "freelancer-alex", name := text "Alex Mercer", trustScore := 89 / 100
    skills := ["fastapi", "langchain", "python", "pytorch", "rag", "vector.db"].map text
    deliveries := 16, avgAst := 88, hourlyRateCents := 8800 },
  { id := text "freelancer-sarah", name := text "Sarah Jenkins", trustScore := 83 / 100
    skills := ["aws", "ci/cd", "docker", "kubernetes", "prometheus", "terraform"].map text
    deliveries := 12, avgAst := 82, hourlyRateCents := 7800 },
  { id := text "freelancer-david", name := text "David Kim", trustScore := 79 / 100
    skills := ["android", "flutter", "ios", "react.native", "typescript"].map text
    deliveries := 9, avgAst := 78, hourlyRateCents := 6800 },
  { id := text "freelancer-maya", name := text "Maya Patel", trustScore := 91 / 100
    skills := ["kafka", "neo4j", "postgresql", "redis", "snowflake", "sql"].map text
    deliveries := 19, avgAst := 89, hourlyRateCents := 8900 },
  { id := text "freelancer-omar", name := text "Omar Farooq", trustScore := 85 / 100
    skills := ["go", "grpc", "kubernetes", "microservices", "postgresql", "rust"].map text
    deliveries := 13, avgAst := 85, hourlyRateCents := 8200 },
  { id := text "freelancer-maria", name := text "Maria Garcia", trustScore := 87 / 100
    skills := ["graphql", "next.js", "tailwind", "typescript", "vue.js"].map text
    deliveries := 15, avgAst := 86, hourlyRateCents := 7500 }
]

theorem fixture_distinct : (fixture.map FreelancerProfile.id).Nodup := by decide +kernel

def init : InMemoryGraphRepo := ⟨fixture, fixture_distinct⟩

def updateTrustScore (r : InMemoryGraphRepo) (freelancerId : Text) (trustScore : ℚ) :
    Bool × InMemoryGraphRepo :=
  if r.freelancers.has freelancerId then
    (true, ⟨r.freelancers.setTrust freelancerId trustScore⟩)
  else (false, r)

def allFreelancers (r : InMemoryGraphRepo) : List FreelancerProfile := r.freelancers.rows

end InMemoryGraphRepo

/-! ## Live backends -/

/-- What goes wrong with a call to the backend. -/
inductive Outage
  | connect
  | statement
  /-- The commit has no effect. -/
  | commit
  /-- The commit takes effect and its answer is lost. -/
  | answer
  deriving DecidableEq

/-- The end of an update: what it returns, what it has written, and the adapter after it. -/
structure Updated (ρ : Type) where
  returned : Bool
  backend : Bool
  fallback : Bool
  repo : ρ

/-- What a read returns, and whether the backend served it. -/
structure Served where
  live : Bool
  profiles : List FreelancerProfile

structure PostgresGraphRepo where
  /-- `freelancer_profiles`, joined with `users`, which each row references. -/
  table : Profiles
  fallback : InMemoryGraphRepo

namespace PostgresGraphRepo

def fallbackUpdate (r : PostgresGraphRepo) (freelancerId : Text) (trustScore : ℚ)
    (backend : Bool) : Updated PostgresGraphRepo :=
  let (returned, fallback) := r.fallback.updateTrustScore freelancerId trustScore
  ⟨returned, backend, returned, { r with fallback }⟩

/-- `real` is what a column of that type holds of a number, if it can hold it. -/
def updateTrustScore (real : ℚ → Option ℚ) (r : PostgresGraphRepo) (freelancerId : Text)
    (trustScore : ℚ) (outage : Option Outage) : Updated PostgresGraphRepo :=
  if outage = some .connect ∨ outage = some .statement then
    r.fallbackUpdate freelancerId trustScore false
  else
    match real trustScore with
    | none => r.fallbackUpdate freelancerId trustScore false
    | some stored =>
      let table := r.table.setTrust freelancerId stored
      let matched := r.table.has freelancerId
      if outage = some .commit then r.fallbackUpdate freelancerId trustScore false
      else if outage = some .answer then
        { r with table }.fallbackUpdate freelancerId trustScore matched
      else ⟨true, matched, false, { r with table }⟩

def allFreelancers (r : PostgresGraphRepo) (outage : Option Outage) : Served :=
  if outage.isSome then ⟨false, r.fallback.allFreelancers⟩
  else if r.table.rows = [] then ⟨false, r.fallback.allFreelancers⟩
  else ⟨true, r.table.rows.insertionSort fun p q => q.trustScore ≤ p.trustScore⟩

end PostgresGraphRepo

/-- A node with the label `Freelancer`. -/
structure FreelancerNode where
  id : Text
  name : Text
  trust : Option ℚ
  skills : List Text
  deliveries : Option ℕ
  avgAst : Option ℚ
  rate : Option ℕ

structure Neo4jGraphRepo where
  /-- The ids are unique by a constraint. -/
  nodes : Keyed FreelancerNode.id
  /-- The driver has been made. -/
  driver : Bool
  fallback : InMemoryGraphRepo

namespace Neo4jGraphRepo

/-- `lower` is that of a string. -/
def profileFromRecord (lower : Text → Text) (n : FreelancerNode) : FreelancerProfile where
  id := n.id
  name := n.name
  trustScore := n.trust.getD 0
  skills := ((n.skills.filter (· ≠ [])).map lower).dedup.insertionSort (· ≤ ·)
  deliveries := n.deliveries.getD 0
  avgAst := n.avgAst.getD 0
  hourlyRateCents := n.rate.getD 0

def ensureDriver (r : Neo4jGraphRepo) (outage : Option Outage) : Neo4jGraphRepo :=
  { r with driver := r.driver || outage ≠ some .connect }

def fallbackUpdate (r : Neo4jGraphRepo) (freelancerId : Text) (trustScore : ℚ) (backend : Bool) :
    Updated Neo4jGraphRepo :=
  let (written, fallback) := r.fallback.updateTrustScore freelancerId trustScore
  ⟨false, backend, written, { r with fallback }⟩

def setTrust (r : Neo4jGraphRepo) (freelancerId : Text) (trustScore : ℚ) : Neo4jGraphRepo :=
  let set (n : FreelancerNode) : FreelancerNode := { n with trust := some trustScore }
  { r with nodes := r.nodes.update freelancerId set fun _ => rfl }

def updateTrustScore (r : Neo4jGraphRepo) (freelancerId : Text) (trustScore : ℚ)
    (outage : Option Outage) : Updated Neo4jGraphRepo :=
  let r := r.ensureDriver outage
  if r.driver = false then r.fallbackUpdate freelancerId trustScore false
  else
    let matched := r.nodes.has freelancerId
    match outage with
    | none => ⟨matched, matched, false, r.setTrust freelancerId trustScore⟩
    | some .answer =>
      (r.setTrust freelancerId trustScore).fallbackUpdate freelancerId trustScore matched
    | some _ => r.fallbackUpdate freelancerId trustScore false

def allFreelancers (lower : Text → Text) (r : Neo4jGraphRepo) (outage : Option Outage) :
    Served × Neo4jGraphRepo :=
  let r := r.ensureDriver outage
  if r.driver = false ∨ outage.isSome then (⟨false, r.fallback.allFreelancers⟩, r)
  else (⟨true, r.nodes.rows.map (profileFromRecord lower)⟩, r)

end Neo4jGraphRepo

/-! ## Calls -/

inductive Call
  | updateTrustScore (freelancerId : Text) (trustScore : ℚ) (outage : Option Outage)
  | allFreelancers (outage : Option Outage)

abbrev Seen : Type := Reported.Seen Text ℚ

def Served.seen (s : Served) : Seen :=
  .read s.live (s.profiles.map fun p => (p.id, p.trustScore))

def PostgresGraphRepo.call (real : ℚ → Option ℚ) (r : PostgresGraphRepo) :
    Call → Seen × PostgresGraphRepo
  | .updateTrustScore freelancerId trustScore outage =>
    let u := r.updateTrustScore real freelancerId trustScore outage
    (.written freelancerId trustScore u.returned, u.repo)
  | .allFreelancers outage => ((r.allFreelancers outage).seen, r)

def Neo4jGraphRepo.call (lower : Text → Text) (r : Neo4jGraphRepo) :
    Call → Seen × Neo4jGraphRepo
  | .updateTrustScore freelancerId trustScore outage =>
    let u := r.updateTrustScore freelancerId trustScore outage
    (.written freelancerId trustScore u.returned, u.repo)
  | .allFreelancers outage =>
    let (served, r) := r.allFreelancers lower outage
    (served.seen, r)

end AssureCode.Graph
