/-
  Review authorizations are consumed once.

  Claims are never removed, and only lose their activity.  `Exclusive` holds of
  every reachable registry: its `running` field is kept because every statement
  that ends a deployment releases its claim.
-/
import PaPlatform.Registry.Writes
import PaPlatform.Lib.Run

namespace PaPlatform.Registry

open Js Guard

variable {dates : DateReader} {op : Operation} {db db' : Database} {d : String}
  {c c' : ReviewAuthorizationClaim} {cs cs' cs'' : List ReviewAuthorizationClaim}

/-- The runs of the registry. -/
abbrev Reaches (dates : DateReader) (parse : String → Option ReviewObjective) :=
  Run.Reaches (perform dates parse) Database.empty

/-! ## Ageing -/

/-- The same claim, later. -/
def Ages (c c' : ReviewAuthorizationClaim) : Prop :=
  ∃ active, c' = { c with active } ∧ (c.active = false → active = false)

/-- The claims `cs`, later. -/
def Extends (cs cs' : List ReviewAuthorizationClaim) : Prop :=
  ∀ (i : ℕ) (c : ReviewAuthorizationClaim), cs[i]? = some c → ∃ c', cs'[i]? = some c' ∧ Ages c c'

theorem Ages.refl : Ages c c := ⟨c.active, rfl, id⟩

theorem Extends.refl : Extends cs cs := fun _ c h => ⟨c, h, .refl⟩

theorem Extends.trans (h : Extends cs cs') (h' : Extends cs' cs'') : Extends cs cs'' := by
  intro i c hc
  obtain ⟨_, hc', a, rfl, ha⟩ := h i c hc
  obtain ⟨_, hc'', a', rfl, ha'⟩ := h' i _ hc'
  exact ⟨_, hc'', a', rfl, fun hi => ha' (ha hi)⟩

theorem extends_map {f : ReviewAuthorizationClaim → ReviewAuthorizationClaim}
    (hf : ∀ c, Ages c (f c)) : Extends cs (cs.map f) := by
  intro i c hc
  exact ⟨f c, by rw [List.getElem?_map, hc]; rfl, hf c⟩

theorem extends_append : Extends cs (cs ++ cs') := by
  intro i c hc
  have hi : i < cs.length := (List.getElem?_eq_some_iff.1 hc).1
  exact ⟨c, by rw [List.getElem?_append_left hi, hc], .refl⟩

theorem ages_if {p : Prop} [Decidable p] : Ages c (if p then { c with active := false } else c) := by
  split_ifs
  · exact ⟨false, rfl, fun _ => rfl⟩
  · exact .refl

theorem extends_release (db : Database) (d : String) : Extends db.claims (db.release d).claims :=
  extends_map fun _ => ages_if

theorem extends_reconcile {ticketId branch : String} :
    Extends db.claims (db.reconcileClaims ticketId branch).claims := extends_map fun _ => ages_if

theorem extends_project (db : Database) (row : RegistryEvent) :
    Extends db.claims (db.project row).claims := by
  rw [Database.claims_project]
  split_ifs
  · exact extends_release _ _
  · exact .refl

/-- **Every write keeps the claims and adds at most one.** -/
theorem Writes.extends (h : Writes dates op db db') : Extends db.claims db'.claims := by
  cases h with
  | same => exact .refl
  | released d => exact extends_release _ _
  | claimed _ => exact extends_reconcile.trans extends_append
  | started => exact extends_project (db.insert _) _
  | observed => exact extends_project (db.insert _) _
  | replaced => exact extends_project ((db.dropTerminals _).insert _) _
  | retained =>
    exact (extends_project ((db.dropTerminals _).insert _) _).trans (extends_release _ _)
  | associated => exact .refl

/-! ## Exclusion -/

/-- Two claims that can stand together. -/
def Compatible (c c' : ReviewAuthorizationClaim) : Prop :=
  c.authorizationId ≠ c'.authorizationId ∧ c.deploymentId ≠ c'.deploymentId ∧
    (c.active = true → c'.active = true → ¬ (c.ticketId = c'.ticketId ∧ c.branch = c'.branch))

/-- The deployment of an active claim is running. -/
def Running (db : Database) (cs : List ReviewAuthorizationClaim) : Prop :=
  ∀ c ∈ cs, c.active = true → ∃ row, db.deployments c.deploymentId = some row ∧ row.status = .running

structure Exclusive (db : Database) : Prop where
  compatible : db.claims.Pairwise Compatible
  running : Running db db.claims

theorem pairwise_map {f : ReviewAuthorizationClaim → ReviewAuthorizationClaim} (hf : ∀ c, Ages c (f c))
    (h : cs.Pairwise Compatible) : (cs.map f).Pairwise Compatible := by
  rw [List.pairwise_map]
  refine h.imp fun {c c'} h => ?_
  obtain ⟨a, hc, ha⟩ := hf c
  obtain ⟨a', hc', ha'⟩ := hf c'
  rw [hc, hc']
  refine ⟨h.1, h.2.1, fun hact hact' => h.2.2 ?_ ?_⟩
  · by_contra hn
    simp [ha (by simpa using hn)] at hact
  · by_contra hn
    simp [ha' (by simpa using hn)] at hact'

theorem running_map {f : ReviewAuthorizationClaim → ReviewAuthorizationClaim} (hf : ∀ c, Ages c (f c))
    (h : Running db cs) : Running db (cs.map f) := by
  intro c hc hact
  obtain ⟨c₀, hc₀, rfl⟩ := List.mem_map.1 hc
  obtain ⟨a, heq, ha⟩ := hf c₀
  rw [heq] at hact ⊢
  refine h c₀ hc₀ ?_
  by_contra hn
  simp [ha (by simpa using hn)] at hact

theorem Exclusive.insert {row : RegistryEvent} (h : Exclusive db) : Exclusive (db.insert row) :=
  ⟨h.compatible, h.running⟩

theorem Exclusive.dropTerminals (h : Exclusive db) : Exclusive (db.dropTerminals d) :=
  ⟨h.compatible, h.running⟩

theorem Exclusive.release (h : Exclusive db) : Exclusive (db.release d) :=
  ⟨pairwise_map (fun _ => ages_if) h.compatible, running_map (fun _ => ages_if) h.running⟩

theorem observe_status {row : RegistryEvent} {old : Deployment} (h : row.event.isTerminal = false) :
    (old.observe row).status = old.status := by
  unfold Deployment.observe
  cases he : row.event with
  | completed => simp [he, EventKind.isTerminal] at h
  | crashed => simp [he, EventKind.isTerminal] at h
  | _ => rfl

/-- An event keeps the invariant: a terminal one releases the claim of the
    deployment that it ends. -/
theorem Exclusive.project {row : RegistryEvent} (h : Exclusive db) : Exclusive (db.project row) := by
  have hcl := @Database.claims_project db row
  constructor
  · rw [hcl]
    split_ifs
    · exact h.release.compatible
    · exact h.compatible
  · intro c hc hact
    by_cases hd : c.deploymentId = row.deploymentId
    · by_cases ht : row.event.isTerminal = true
      · rw [hcl, if_pos ht] at hc
        obtain ⟨c₀, -, rfl⟩ := List.mem_map.1 hc
        by_cases hc₀ : c₀.deploymentId = row.deploymentId
        · simp [hc₀] at hact
        · simp [hc₀] at hd
      · rw [hcl, if_neg ht] at hc
        obtain ⟨old, hold, hrun⟩ := h.running c hc hact
        rw [hd] at hold ⊢
        rw [Database.deployments_project_self, hold]
        by_cases hs : row.event = .started
        · exact ⟨_, if_pos hs, rfl⟩
        · refine ⟨_, if_neg hs, ?_⟩
          rw [observe_status (by simpa using ht), hrun]
    · rw [Database.deployments_project_other hd]
      rw [hcl] at hc
      split_ifs at hc
      · exact h.release.running c hc hact
      · exact h.running c hc hact

theorem Exclusive.claim {input : ReviewAuthorizationClaimInput} {projection : Deployment}
    {claimedAt : String} (h : Exclusive db) (hc : Claimable db input projection) :
    Exclusive { db with
      claims := (db.reconcileClaims input.ticketId input.branch).claims ++ [newClaim input claimedAt] } := by
  have hpair : (db.reconcileClaims input.ticketId input.branch).claims.Pairwise Compatible :=
    pairwise_map (fun _ => ages_if) h.compatible
  have hrun : Running db (db.reconcileClaims input.ticketId input.branch).claims :=
    running_map (fun _ => ages_if) h.running
  have hold : ∀ c ∈ (db.reconcileClaims input.ticketId input.branch).claims,
      ∃ c₀ ∈ db.claims, Ages c₀ c := by
    intro c hc
    obtain ⟨c₀, hc₀, rfl⟩ := List.mem_map.1 hc
    exact ⟨c₀, hc₀, ages_if⟩
  constructor
  · refine List.pairwise_append.2 ⟨hpair, List.pairwise_singleton _ _, fun c hcm c' hc' => ?_⟩
    rw [List.mem_singleton.1 hc']
    obtain ⟨c₀, hc₀, a, rfl, -⟩ := hold c hcm
    refine ⟨hc.unconsumed c₀ hc₀, hc.unclaimed c₀ hc₀, fun hact _ hslot => ?_⟩
    have hfree := hc.free _ hcm hslot.1 hslot.2
    rw [hact] at hfree
    cases hfree
  · intro c hcm hact
    rcases List.mem_append.1 hcm with hcm | hcm
    · exact hrun c hcm hact
    · rw [List.mem_singleton.1 hcm]
      exact ⟨projection, hc.projected, hc.running⟩

/-- **Every write keeps the invariant.** -/
theorem Exclusive.write (h : Exclusive db) (hw : Writes dates op db db') : Exclusive db' := by
  cases hw with
  | same => exact h
  | released d => exact h.release
  | claimed hc => exact h.claim hc
  | started => exact h.insert.project
  | observed => exact h.insert.project
  | replaced => exact h.dropTerminals.insert.project
  | retained => exact h.dropTerminals.insert.project.release
  | @associated input start row projection _ ha =>
    refine ⟨h.compatible, fun c hc hact => ?_⟩
    obtain ⟨old, hold, hrun⟩ := h.running c hc hact
    by_cases hd : c.deploymentId = input.deploymentId
    · refine ⟨{ projection with ticketId := some input.ticketId }, ?_, ha.running⟩
      rw [hd]
      exact Function.update_self ..
    · refine ⟨old, ?_, hrun⟩
      rw [← hold]
      exact Function.update_of_ne hd ..

theorem exclusive {parse : String → Option ReviewObjective} {h : List (Run.Step Database Call)}
    (hr : Reaches dates parse h db) : Exclusive db := by
  refine hr.invariant (P := fun _ db => Exclusive db) ⟨List.Pairwise.nil, ?_⟩ ?_
  · intro c hc
    simp [Database.empty] at hc
  · intro h s call s' _ hs hok
    exact hs.write (perform_writes hok)

theorem Exclusive.slot_le_one (h : Exclusive db) (ticketId branch : String) :
    (db.claims.filter fun c => c.ticketId = ticketId ∧ c.branch = branch ∧ c.active = true).length ≤ 1 := by
  have hp := h.compatible.filter fun c => c.ticketId = ticketId ∧ c.branch = branch ∧ c.active = true
  generalize hl : (db.claims.filter fun c => c.ticketId = ticketId ∧ c.branch = branch ∧ c.active = true) = l at hp
  match l, hl with
  | [], _ => simp
  | [_], _ => simp
  | c :: c' :: rest, hl =>
    have hc : c ∈ db.claims.filter fun c => c.ticketId = ticketId ∧ c.branch = branch ∧ c.active = true := by
      rw [hl]; simp
    have hc' : c' ∈ db.claims.filter fun c => c.ticketId = ticketId ∧ c.branch = branch ∧ c.active = true := by
      rw [hl]; simp
    simp only [List.mem_filter, decide_eq_true_eq] at hc hc'
    have hcc : Compatible c c' := (List.pairwise_cons.1 hp).1 c' (by simp)
    exact absurd ⟨hc.2.1.trans hc'.2.1.symm, hc.2.2.1.trans hc'.2.2.1.symm⟩
      (hcc.2.2 hc.2.2.2 hc'.2.2.2)

/-- **Review authorizations are consumed once**, in every reachable registry:
    - no authorization and no deployment has two claims;
    - a ticket and a branch have at most one active claim;
    - an active claim belongs to a running deployment;
    - every earlier claim is still there, and is inactive if it was. -/
theorem review_authorizations_consumed_once {parse : String → Option ReviewObjective}
    {h : List (Run.Step Database Call)} (hr : Reaches dates parse h db) :
    (db.claims.map (·.authorizationId)).Nodup ∧ (db.claims.map (·.deploymentId)).Nodup ∧
      (∀ ticketId branch, (db.claims.filter fun c =>
        c.ticketId = ticketId ∧ c.branch = branch ∧ c.active = true).length ≤ 1) ∧
      (∀ c ∈ db.claims, c.active = true →
        ∃ row, db.deployments c.deploymentId = some row ∧ row.status = .running) ∧
      ∀ st ∈ h, Extends st.before.claims db.claims ∧ Extends st.after.claims db.claims := by
  have hex := exclusive hr
  refine ⟨?_, ?_, hex.slot_le_one, hex.running, ?_⟩
  · rw [List.Nodup, List.pairwise_map]
    exact hex.compatible.imp fun h => h.1
  · rw [List.Nodup, List.pairwise_map]
    exact hex.compatible.imp fun h => h.2.1
  · refine hr.relates (R := fun db db' => Extends db.claims db'.claims) (fun _ => .refl) ?_ ?_
    · intro a b c hab hbc
      exact Extends.trans hab hbc
    · intro _ s call s' _ hok
      exact (perform_writes hok).extends

/-! ## A sample review -/

/-- An accepted sequence of calls is a run. -/
theorem reaches_of_exec {parse : String → Option ReviewObjective} {calls : List Call}
    {p : Database → Bool}
    (hok : (Run.exec (perform dates parse) Database.empty calls).toOption.any p = true) :
    ∃ h db, Reaches dates parse h db ∧ h.map (·.event) = calls ∧ p db = true := by
  cases he : Run.exec (perform dates parse) Database.empty calls with
  | error k =>
    rw [he] at hok
    cases hok
  | ok db =>
    obtain ⟨h, hr, hm⟩ := Run.reaches_of_exec he
    rw [he] at hok
    exact ⟨h, db, hr, hm, hok⟩

namespace Sample

def time : String := "2026-02-01T00:00:00.000Z"

def env : Environment := ⟨time, some [("pa", "/pa")], fun _ => some (some "pa")⟩

/-- No objective is versioned. -/
def unversioned : String → Option ReviewObjective := fun _ => none

/-- The start of a review of `PA-1`. -/
def reviewStart : RegistryEvent :=
  { RegistryEvent.bare "d-000001" "requirements" .started time with
    ticketId := some "PA-1"
    launch := { Launch.empty with
      mode := some "review-auto"
      runtime := some "pi"
      binary := some "ppa"
      objective := some "Branch: b" } }

def reviewInput : ReviewAuthorizationClaimInput where
  deploymentId := "d-000001"
  authorizationId := "review-auth:00000000-0000-4000-8000-000000000000"
  ticketId := "PA-1"
  branch := "b"
  featureSha := String.ofList (List.replicate 40 '0')
  matrixSource := "m"
  matrixAuthoritySha256 := String.ofList (List.replicate 64 '0')
  matrixApprovalEvidence := "e"
  objective := "Branch: b"
  claimedAt := none

/-- A review starts and claims its authorization. -/
def claimed : List Call := [⟨.append reviewStart, env⟩, ⟨.claim reviewInput, env⟩]

end Sample

theorem review_authorizations_consumed_once_claimed :
    ∃ db : Database, db.claims.length = 1 ∧ ∀ c ∈ db.claims, c.active = true →
      ∃ row, db.deployments c.deploymentId = some row ∧ row.status = .running := by
  have hok : (Run.exec (perform isoDates Sample.unversioned) Database.empty
      Sample.claimed).toOption.any (fun db => db.claims.length = 1) = true := by decide +kernel
  obtain ⟨h, db, hr, -, hlen⟩ := reaches_of_exec hok
  exact ⟨db, by simpa using hlen, (review_authorizations_consumed_once hr).2.2.2.1⟩

end PaPlatform.Registry
