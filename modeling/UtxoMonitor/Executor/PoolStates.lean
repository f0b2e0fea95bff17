import UtxoMonitor.Executor.HotOrders
import UtxoMonitor.Lib.Stack

/-! The states of a pool that the executor works on, one predicted from the other. -/
namespace UtxoMonitor.Executor

open Lib LiquidityBook Domain ExecutionEngine BoxResolver Backlog Relation
open InMemoryEntityRepo (prefixOf)

section References

variable {Pool : Type} [EntitySnapshot Pool] [RawStableId Pool]
  {repo repo' : InMemoryEntityRepo Pool} {id eid : StableId Pool} {k j : Last}
  {entity : Pool} {sid : Version Pool}

/-! ### What the store refers to -/

theorem indexKey_eq_iff : InMemoryEntityRepo.indexKey (prefixOf k) id =
    InMemoryEntityRepo.indexKey (prefixOf j) eid ↔ k = j ∧ rawId id = rawId eid := by
  constructor
  · intro h
    have hbytes := congrArg Subtype.val h
    simp only [InMemoryEntityRepo.indexKey, List.cons.injEq] at hbytes
    exact ⟨InMemoryEntityRepo.prefixOf_inj.mp hbytes.1, Subtype.ext hbytes.2⟩
  · rintro ⟨rfl, hraw⟩
    apply Subtype.ext
    simp only [InMemoryEntityRepo.indexKey, hraw]

theorem lookup_insert_index (index : AList fun _ : InMemoryIndexKey => Version Pool) (j : Last)
    (sid : Version Pool) : (index.insert (InMemoryEntityRepo.indexKey (prefixOf j) eid) sid).lookup
      (InMemoryEntityRepo.indexKey (prefixOf k) id) = if k = j ∧ rawId id = rawId eid then some sid
        else index.lookup (InMemoryEntityRepo.indexKey (prefixOf k) id) := by
  rw [lookup_insert_eq]
  simp only [indexKey_eq_iff]

theorem lookup_erase_index (index : AList fun _ : InMemoryIndexKey => Version Pool) (j : Last) :
    (index.erase (InMemoryEntityRepo.indexKey (prefixOf j) eid)).lookup
      (InMemoryEntityRepo.indexKey (prefixOf k) id) = if k = j ∧ rawId id = rawId eid then none
        else index.lookup (InMemoryEntityRepo.indexKey (prefixOf k) id) := by
  rw [lookup_erase_eq]
  simp only [indexKey_eq_iff]

/-- The version that a pool is referred to by. -/
def referred (repo : InMemoryEntityRepo Pool) (k : Last) (id : StableId Pool) :
    Option (Version Pool) :=
  repo.index.lookup (InMemoryEntityRepo.indexKey (prefixOf k) id)

theorem referred_putLast : referred (repo.putLast (prefixOf j) entity) k id =
    if k = j ∧ rawId id = rawId (stableId entity) then some (version entity) else referred repo k id :=
  lookup_insert_index _ _ _

theorem referred_putPredicted {prev : Option (Version Pool)} :
    referred (EntityRepo.putPredicted repo entity prev) k id =
      if k = .predicted ∧ rawId id = rawId (stableId entity) then some (version entity)
      else referred repo k id :=
  lookup_insert_index _ .predicted _

theorem referred_invalidate : referred (EntityRepo.invalidate (T := Pool) repo sid eid) k id =
    if rawId id = rawId eid then (if k = .confirmed then repo.links.lookup sid else none)
    else referred repo k id := by
  refine (lookup_erase_index _ .unconfirmed).trans ?_
  rw [show InMemoryEntityRepo.lastPredictedPrefix = prefixOf .predicted from rfl,
    lookup_erase_index _ .predicted, referred]
  cases repo.links.lookup sid with
  | some predecessor =>
    simp only
    rw [show InMemoryEntityRepo.lastConfirmedPrefix = prefixOf .confirmed from rfl,
      lookup_insert_index _ .confirmed]
    by_cases hraw : rawId id = rawId eid
    · cases k <;> simp [hraw]
    · simp [hraw]
  | none =>
    simp only
    rw [show InMemoryEntityRepo.lastConfirmedPrefix = prefixOf .confirmed from rfl,
      lookup_erase_index _ .confirmed]
    by_cases hraw : rawId id = rawId eid
    · cases k <;> simp [hraw]
    · simp [hraw]

theorem referred_eliminate : referred (EntityRepo.eliminate repo entity) k id =
    if rawId id = rawId (stableId entity) then none else referred repo k id := by
  refine (lookup_erase_index _ .unconfirmed).trans ?_
  rw [show InMemoryEntityRepo.lastConfirmedPrefix = prefixOf .confirmed from rfl,
    lookup_erase_index _ .confirmed,
    show InMemoryEntityRepo.lastPredictedPrefix = prefixOf .predicted from rfl,
    lookup_erase_index _ .predicted, referred]
  by_cases hraw : rawId id = rawId (stableId entity)
  · cases k <;> simp [hraw]
  · simp [hraw]

end References

/-! ### Where versions come from -/

/-- The pool that a version belongs to, and how many versions come before it. -/
structure Lineage (Pool : Type) [EntitySnapshot Pool] [RawStableId Pool] where
  home : Version Pool → RawBytes 60
  depth : Version Pool → Nat

namespace Lineage

variable {Pool : Type} [EntitySnapshot Pool] [RawStableId Pool] (lineage : Lineage Pool)

/-- The state is one of the pool that its version belongs to. -/
def Owns (entity : Pool) : Prop := lineage.home (version entity) = rawId (stableId entity)

def Before (sid sid' : Version Pool) : Prop :=
  lineage.home sid = lineage.home sid' ∧ lineage.depth sid < lineage.depth sid'

/-- What is stored and referred to is of the right pools, and links lead back. -/
structure Filed (repo : InMemoryEntityRepo Pool) : Prop where
  store : ∀ sid entity, repo.store.lookup sid = some entity →
    version entity = sid ∧ lineage.Owns entity
  ref : ∀ k id sid, referred repo k id = some sid → lineage.home sid = rawId id
  kept : ∀ k id sid, referred repo k id = some sid → k ≠ .confirmed → repo.store.lookup sid ≠ none
  links : ∀ sid sid', repo.links.lookup sid = some sid' → lineage.Before sid' sid

/-- The call is about one pool, and makes later states of earlier ones. -/
def Proper : RepoCall Pool → Prop
  | .putPredicted entity prevStateId =>
    lineage.Owns entity ∧ ∀ sid ∈ prevStateId, lineage.Before sid (version entity)
  | .putConfirmed entity => lineage.Owns entity
  | .putUnconfirmed entity => lineage.Owns entity
  | .invalidate sid eid => lineage.home sid = rawId eid
  | .eliminate entity => lineage.Owns entity
  | _ => True

variable {lineage} {repo : InMemoryEntityRepo Pool} {entity : Pool} {sid : Version Pool}
  {eid : StableId Pool}

theorem Filed.putLast (h : lineage.Filed repo) (j : Last) (howns : lineage.Owns entity) :
    lineage.Filed (repo.putLast (prefixOf j) entity) where
  store sid' entity' hstored := by
    rw [InMemoryEntityRepo.putLast, lookup_insert_eq] at hstored
    split at hstored
    · rename_i heq
      cases hstored
      exact ⟨heq.symm, howns⟩
    · exact h.store sid' entity' hstored
  ref k id sid' href := by
    rw [referred_putLast] at href
    split at href
    · rename_i hsame
      cases href
      exact howns.trans hsame.2.symm
    · exact h.ref k id sid' href
  kept k id sid' href hk := by
    rw [InMemoryEntityRepo.putLast, lookup_insert_eq]
    split
    · exact Option.some_ne_none _
    · rename_i hne
      rw [referred_putLast] at href
      split at href
      · cases href
        exact absurd rfl hne
      · exact h.kept k id sid' href hk
  links := h.links

theorem Filed.putPredicted (h : lineage.Filed repo) (howns : lineage.Owns entity)
    {prev : Option (Version Pool)} (hprev : ∀ sid ∈ prev, lineage.Before sid (version entity)) :
    lineage.Filed (EntityRepo.putPredicted repo entity prev) := by
  have hput := h.putLast .predicted howns
  refine ⟨hput.store, hput.ref, hput.kept, ?_⟩
  intro sid sid' hlink
  cases prev with
  | none => exact h.links sid sid' hlink
  | some prevSid =>
    have hlink' := (lookup_insert_eq _ _ _ _).symm.trans hlink
    split at hlink'
    · rename_i heq
      cases hlink'
      rw [heq]
      exact hprev sid' rfl
    · exact h.links sid sid' hlink'

/-- What is stored of another version stays stored. -/
theorem Filed.erase (h : lineage.Filed repo) (sid : Version Pool)
    {index : AList fun _ : InMemoryIndexKey => Version Pool}
    (href : ∀ k id sid', referred ⟨repo.store, index, repo.links⟩ k id = some sid' →
      lineage.home sid' = rawId id ∧ (k ≠ .confirmed → referred repo k id = some sid' ∧ sid' ≠ sid)) :
    lineage.Filed ⟨repo.store.erase sid, index, repo.links.erase sid⟩ where
  store sid' entity' hstored := by
    rw [lookup_erase_eq] at hstored
    split at hstored
    · cases hstored
    · exact h.store sid' entity' hstored
  ref k id sid' hsid := (href k id sid' hsid).1
  kept k id sid' hsid hk := by
    obtain ⟨hbefore, hne⟩ := (href k id sid' hsid).2 hk
    rw [lookup_erase_eq, if_neg hne]
    exact h.kept k id sid' hbefore hk
  links sid' sid'' hlink := by
    rw [lookup_erase_eq] at hlink
    split at hlink
    · cases hlink
    · exact h.links sid' sid'' hlink

theorem Filed.invalidate (h : lineage.Filed repo) (hsid : lineage.home sid = rawId eid) :
    lineage.Filed (EntityRepo.invalidate (T := Pool) repo sid eid) := by
  refine h.erase sid fun k id sid' href => ?_
  have href' : referred (EntityRepo.invalidate (T := Pool) repo sid eid) k id = some sid' := href
  rw [referred_invalidate] at href'
  split at href'
  · rename_i hraw
    split at href'
    · rename_i hconfirmed
      exact ⟨(h.links sid sid' href').1.trans (hsid.trans hraw.symm), fun hk => absurd hconfirmed hk⟩
    · cases href'
  · rename_i hraw
    refine ⟨h.ref k id sid' href', fun _ => ⟨href', ?_⟩⟩
    rintro rfl
    exact hraw ((h.ref k id sid' href').symm.trans hsid)

theorem Filed.eliminate (h : lineage.Filed repo) (howns : lineage.Owns entity) :
    lineage.Filed (EntityRepo.eliminate repo entity) := by
  refine h.erase (version entity) fun k id sid' href => ?_
  have href' : referred (EntityRepo.eliminate repo entity) k id = some sid' := href
  rw [referred_eliminate] at href'
  split at href'
  · cases href'
  · rename_i hraw
    refine ⟨h.ref k id sid' href', fun _ => ⟨href', ?_⟩⟩
    rintro rfl
    exact hraw ((h.ref k id _ href').symm.trans howns)

theorem Filed.call (h : lineage.Filed repo) {c : RepoCall Pool} (hc : lineage.Proper c) :
    lineage.Filed (EntityRepo.call repo c) := by
  cases c with
  | putPredicted entity prev => exact h.putPredicted hc.1 hc.2
  | putConfirmed entity => exact h.putLast .confirmed hc
  | putUnconfirmed entity => exact h.putLast .unconfirmed hc
  | invalidate sid eid => exact h.invalidate hc
  | eliminate entity => exact h.eliminate hc
  | getPredictionPredecessor _ => exact h
  | getLastPredicted _ => exact h
  | getLastConfirmed _ => exact h
  | getLastUnconfirmed _ => exact h
  | mayExist _ => exact h
  | getState _ => exact h

end Lineage

/-! ### The states that a pool can fall back to -/

section Trails

variable {Pool : Type} [EntitySnapshot Pool] [RawStableId Pool] {lineage : Lineage Pool}
  {repo repo' : InMemoryEntityRepo Pool} {id id' : StableId Pool} {entity next top : Pool}
  {stack init : List Pool} {sid sid' : Version Pool}

/-- The states of a pool, each predicted from the one before it as far back as states are stored. -/
structure Backed (repo : InMemoryEntityRepo Pool) (id : StableId Pool) (stack : List Pool) :
    Prop where
  stored : ∀ entity ∈ stack, repo.store.lookup (version entity) = some entity
  owned : ∀ entity ∈ stack, rawId (stableId entity) = rawId id
  linked : stack.IsChain fun below above => repo.links.lookup (version above) = some (version below)
  bottom : ∀ entity, stack.head? = some entity →
    ∀ sid, repo.links.lookup (version entity) = some sid → repo.store.lookup sid = none

/-- The state is what the pool is resolved as: an anchored prediction, or the anchor where the
prediction is not anchored. -/
structure Topped (repo : InMemoryEntityRepo Pool) (id : StableId Pool) (top : Pool) : Prop where
  confirmed : EntityRepo.getLastConfirmed (T := Pool) repo id ≠ none
  anchored : ∃ a, anchor repo id = some a ∧
    (EntityRepo.getLastPredicted repo id = some top ∧ Anchored repo top a ∨
      a = top ∧ ∀ p, EntityRepo.getLastPredicted repo id = some p → ¬ Anchored repo p top)

/-- The states that a pool can fall back to, with the one that it is resolved as at the end. -/
structure Trail (repo : InMemoryEntityRepo Pool) (id : StableId Pool) (stack : List Pool) : Prop
    extends Backed repo id stack where
  top : ∀ top, stack.getLast? = some top → Topped repo id top
  empty : stack = [] → EntityRepo.getLastPredicted (T := Pool) repo id = none ∧
    anchor (T := Pool) repo id = none

theorem getLast_eq (repo : InMemoryEntityRepo Pool) (k : Last) (id : StableId Pool) :
    repo.getLast (prefixOf k) id = (referred repo k id).bind repo.store.lookup := rfl

theorem anchor_eq (repo : InMemoryEntityRepo Pool) (id : StableId Pool) :
    anchor (T := Pool) repo id = (repo.getLast (prefixOf .unconfirmed) id).or
      (repo.getLast (prefixOf .confirmed) id) := rfl

/-! ### What the pool is resolved as -/

/-- Each state leads to all before it. -/
theorem Backed.leads (h : Backed repo id (init ++ [top])) (hmem : entity ∈ init) :
    TransGen (Linked (EntityRepo.getPredictionPredecessor (T := Pool) repo)) (version top)
      (version entity) := by
  have hlinked := h.linked
  clear h
  induction init using List.reverseRecOn generalizing top with
  | nil => cases hmem
  | append_singleton init e ih =>
    obtain ⟨hinit, -, hlast⟩ := List.isChain_append.mp hlinked
    have hlink := hlast e (by simp) top rfl
    rcases List.mem_append.mp hmem with hmem | hmem
    · exact .head hlink (ih hmem hinit)
    · rw [List.mem_singleton.mp hmem]
      exact .single hlink

theorem Lineage.Filed.depth_of_linked (h : lineage.Filed repo)
    (hlinked : TransGen (Linked (EntityRepo.getPredictionPredecessor (T := Pool) repo)) sid sid') :
    lineage.Before sid' sid := by
  induction hlinked with
  | single hlink => exact h.links _ _ hlink
  | tail _ hlink ih =>
    obtain ⟨hhome, hdepth⟩ := h.links _ _ hlink
    exact ⟨hhome.trans ih.1, hdepth.trans ih.2⟩

theorem Lineage.Filed.not_circles (h : lineage.Filed repo) (sid : Version Pool) :
    ¬ Circles (EntityRepo.getPredictionPredecessor (T := Pool) repo) sid := by
  rintro ⟨sid', -, hcircle⟩
  exact (h.depth_of_linked hcircle).2.false

/-- The store finds the last state of a trail, and nothing else. -/
def Latest (repo : InMemoryEntityRepo Pool) (id : StableId Pool) (result : Option Pool) : Prop :=
  ∀ result', BoxResolver.Returns (T := Pool) repo id result' ↔ result' = result

theorem latest_of_unique {result : Option Pool}
    (hends : ∃ result', BoxResolver.Returns (T := Pool) repo id result')
    (hunique : ∀ result', BoxResolver.Returns repo id result' → result' = result) :
    Latest repo id result := by
  intro result'
  constructor
  · exact hunique result'
  · rintro rfl
    obtain ⟨found, hfound⟩ := hends
    rwa [← hunique found hfound]

theorem Trail.latest (h : Trail repo id stack) (hfiled : lineage.Filed repo) :
    Latest repo id stack.getLast? := by
  cases stack using List.reverseRecOn with
  | nil =>
    obtain ⟨hpred, hanchor⟩ := h.empty rfl
    have hright : ResolvesRight (T := Pool) repo id := resolvesRight_of_none hpred
    apply latest_of_unique hright.ends
    intro result hresult
    exact (hright.right result hresult).unknown.mpr (anchor_eq_none.mp hanchor)
  | append_singleton init top =>
    rw [List.getLast?_concat]
    obtain ⟨hconf, a, hanchor, htop⟩ := h.top top List.getLast?_concat
    have hright : ResolvesRight (T := Pool) repo id := by
      refine (resolvesRight_iff (finite_lookup repo.links)).mpr ⟨fun hnone => absurd hnone hconf, ?_⟩
      intro a p _ _
      exact .inr (hfiled.not_circles (version p))
    apply latest_of_unique hright.ends
    intro result hresult
    rcases htop with ⟨hpred, hanchored⟩ | ⟨rfl, hnot⟩
    · exact (hright.right result hresult).predicted a top hanchor hpred hanchored
    · exact (hright.right result hresult).anchored a hanchor hnot

/-! ### Calls about other pools -/

variable (lineage id) in
/-- Nothing is different of a pool. -/
structure SameFor (repo repo' : InMemoryEntityRepo Pool) : Prop where
  referred : ∀ k, referred repo' k id = referred repo k id
  store : ∀ sid, lineage.home sid = rawId id → repo'.store.lookup sid = repo.store.lookup sid
  links : ∀ sid, lineage.home sid = rawId id → repo'.links.lookup sid = repo.links.lookup sid

theorem SameFor.getLast (h : SameFor lineage id repo repo') (hfiled : lineage.Filed repo) (k : Last) :
    repo'.getLast (prefixOf k) id = repo.getLast (prefixOf k) id := by
  rw [getLast_eq, getLast_eq, h.referred k]
  cases href : Executor.referred repo k id with
  | none => rfl
  | some sid => exact h.store sid (hfiled.ref k id sid href)

theorem SameFor.anchor (h : SameFor lineage id repo repo') (hfiled : lineage.Filed repo) :
    anchor (T := Pool) repo' id = BoxResolver.anchor (T := Pool) repo id := by
  rw [anchor_eq, anchor_eq, h.getLast hfiled, h.getLast hfiled]

theorem SameFor.linked_iff (h : SameFor lineage id repo repo') (hfiled : lineage.Filed repo)
    (hhome : lineage.home sid = rawId id) :
    TransGen (Linked (EntityRepo.getPredictionPredecessor (T := Pool) repo')) sid sid' ↔
      TransGen (Linked (EntityRepo.getPredictionPredecessor (T := Pool) repo)) sid sid' := by
  constructor
  · intro hlinked
    have hboth : TransGen (Linked (EntityRepo.getPredictionPredecessor (T := Pool) repo)) sid sid' ∧
        lineage.home sid' = rawId id := by
      induction hlinked with
      | single hlink =>
        have hlink' := (h.links _ hhome).symm.trans hlink
        exact ⟨.single hlink', (hfiled.links _ _ hlink').1.trans hhome⟩
      | tail _ hlink ih =>
        have hlink' := (h.links _ ih.2).symm.trans hlink
        exact ⟨ih.1.tail hlink', (hfiled.links _ _ hlink').1.trans ih.2⟩
    exact hboth.1
  · intro hlinked
    induction hlinked with
    | single hlink => exact .single ((h.links _ hhome).trans hlink)
    | tail hbefore hlink ih =>
      have hmid := (hfiled.depth_of_linked hbefore).1.trans hhome
      exact ih.tail ((h.links _ hmid).trans hlink)

theorem SameFor.anchored_iff {p a : Pool} (h : SameFor lineage id repo repo')
    (hfiled : lineage.Filed repo) (hhome : lineage.home (version p) = rawId id) :
    Anchored repo' p a ↔ Anchored repo p a :=
  or_congr_right (h.linked_iff hfiled hhome)

/-- What is referred to is stored as one of the pool's states. -/
theorem Lineage.Filed.of_getLast (h : lineage.Filed repo) {k : Last}
    (hlast : repo.getLast (prefixOf k) id = some entity) :
    repo.store.lookup (version entity) = some entity ∧
      lineage.home (version entity) = rawId id ∧ rawId (stableId entity) = rawId id := by
  obtain ⟨sid, hsid, hstore⟩ := Option.bind_eq_some_iff.mp hlast
  obtain ⟨rfl, howns⟩ := h.store sid entity hstore
  have hhome := h.ref k id _ hsid
  exact ⟨hstore, hhome, howns.symm.trans hhome⟩

theorem Backed.home (h : Backed repo id stack) (hfiled : lineage.Filed repo)
    (hmem : entity ∈ stack) : lineage.home (version entity) = rawId id :=
  (hfiled.store _ entity (h.stored entity hmem)).2.trans (h.owned entity hmem)

theorem Backed.of_same (h : Backed repo id stack) (hfiled : lineage.Filed repo)
    (hsame : SameFor lineage id repo repo') : Backed repo' id stack where
  stored entity hmem := by
    rw [hsame.store _ (h.home hfiled hmem)]
    exact h.stored entity hmem
  owned := h.owned
  linked := by
    refine h.linked.imp_of_mem_imp ?_
    intro below above _ habove hlink
    rw [hsame.links _ (h.home hfiled habove)]
    exact hlink
  bottom entity hhead sid hlink := by
    have hhome := h.home hfiled (List.mem_of_mem_head? hhead)
    rw [hsame.links _ hhome] at hlink
    rw [hsame.store _ ((hfiled.links _ _ hlink).1.trans hhome)]
    exact h.bottom entity hhead sid hlink

theorem Trail.of_same (h : Trail repo id stack) (hfiled : lineage.Filed repo)
    (hsame : SameFor lineage id repo repo') : Trail repo' id stack where
  toBacked := h.toBacked.of_same hfiled hsame
  top top hlast := by
    obtain ⟨hconf, a, hanchor, htop⟩ := h.top top hlast
    refine ⟨?_, a, (hsame.anchor hfiled).trans hanchor, ?_⟩
    · intro hnone
      exact hconf ((hsame.getLast hfiled .confirmed).symm.trans hnone)
    · rcases htop with ⟨hpred, hanchored⟩ | ⟨rfl, hnot⟩
      · have hhome := h.home hfiled (List.mem_of_getLast? hlast)
        exact .inl ⟨(hsame.getLast hfiled .predicted).trans hpred,
          (hsame.anchored_iff hfiled hhome).mpr hanchored⟩
      · refine .inr ⟨rfl, ?_⟩
        intro p hp hanchored
        have hp' := (hsame.getLast hfiled .predicted).symm.trans hp
        have hhome := (hfiled.of_getLast (k := .predicted) hp').2.1
        exact hnot p hp' ((hsame.anchored_iff hfiled hhome).mp hanchored)
  empty hnil := by
    obtain ⟨hpred, hanchor⟩ := h.empty hnil
    exact ⟨(hsame.getLast hfiled .predicted).trans hpred, (hsame.anchor hfiled).trans hanchor⟩

variable (id) in
/-- The call changes nothing of the pool. -/
def Apart : RepoCall Pool → Prop
  | .putPredicted entity _ => rawId (stableId entity) ≠ rawId id
  | .putConfirmed entity => rawId (stableId entity) ≠ rawId id
  | .putUnconfirmed entity => rawId (stableId entity) ≠ rawId id
  | .invalidate _ eid => rawId eid ≠ rawId id
  | .eliminate entity => rawId (stableId entity) ≠ rawId id
  | _ => True

theorem sameFor_putLast {j : Last} (howns : lineage.Owns entity)
    (hapart : rawId (stableId entity) ≠ rawId id) :
    SameFor lineage id repo (repo.putLast (prefixOf j) entity) where
  referred k := by rw [referred_putLast, if_neg fun h => hapart h.2.symm]
  store sid hsid := by
    refine (lookup_insert_eq _ _ _ _).trans (if_neg ?_)
    rintro rfl
    exact hapart (howns.symm.trans hsid)
  links _ _ := rfl

theorem sameFor_call {c : RepoCall Pool} (hc : lineage.Proper c) (hapart : Apart id c) :
    SameFor lineage id repo (EntityRepo.call repo c) := by
  have hself : SameFor lineage id repo repo := ⟨fun _ => rfl, fun _ _ => rfl, fun _ _ => rfl⟩
  cases c with
  | putPredicted entity prev =>
    have hput : SameFor lineage id repo (repo.putLast (prefixOf .predicted) entity) :=
      sameFor_putLast hc.1 hapart
    refine ⟨hput.referred, hput.store, ?_⟩
    intro sid hsid
    cases prev with
    | none => rfl
    | some prevSid =>
      refine (lookup_insert_eq _ _ _ _).trans (if_neg ?_)
      rintro rfl
      exact hapart (hc.1.symm.trans hsid)
  | putConfirmed entity => exact sameFor_putLast (j := .confirmed) hc hapart
  | putUnconfirmed entity => exact sameFor_putLast (j := .unconfirmed) hc hapart
  | invalidate sid eid =>
    refine ⟨fun k => ?_, fun sid' hsid => ?_, fun sid' hsid => ?_⟩
    · exact referred_invalidate.trans (if_neg hapart.symm)
    · refine (lookup_erase_eq _ _ _).trans (if_neg ?_)
      rintro rfl
      exact hapart (hc.symm.trans hsid)
    · refine (lookup_erase_eq _ _ _).trans (if_neg ?_)
      rintro rfl
      exact hapart (hc.symm.trans hsid)
  | eliminate entity =>
    refine ⟨fun k => ?_, fun sid' hsid => ?_, fun sid' hsid => ?_⟩
    · exact referred_eliminate.trans (if_neg hapart.symm)
    · refine (lookup_erase_eq _ _ _).trans (if_neg ?_)
      rintro rfl
      exact hapart (hc.symm.trans hsid)
    · refine (lookup_erase_eq _ _ _).trans (if_neg ?_)
      rintro rfl
      exact hapart (hc.symm.trans hsid)
  | getPredictionPredecessor _ => exact hself
  | getLastPredicted _ => exact hself
  | getLastConfirmed _ => exact hself
  | getLastUnconfirmed _ => exact hself
  | mayExist _ => exact hself
  | getState _ => exact hself

/-! ### Predictions and invalidations -/

theorem Backed.depth_lt (h : Backed repo id (init ++ [top])) (hfiled : lineage.Filed repo)
    (hmem : entity ∈ init) : lineage.depth (version entity) < lineage.depth (version top) :=
  (hfiled.depth_of_linked (h.leads hmem)).2

theorem Backed.depth_le (h : Backed repo id (init ++ [top])) (hfiled : lineage.Filed repo)
    (hmem : entity ∈ init ++ [top]) :
    lineage.depth (version entity) ≤ lineage.depth (version top) := by
  rcases List.mem_append.mp hmem with hmem | hmem
  · exact (h.depth_lt hfiled hmem).le
  · rw [List.mem_singleton.mp hmem]

/-- No later state has the version of a state before it. -/
theorem Backed.version_ne (h : Backed repo id (init ++ [top])) (hfiled : lineage.Filed repo)
    (hbefore : lineage.Before (version top) (version next)) (hmem : entity ∈ init ++ [top]) :
    version entity ≠ version next := by
  intro heq
  have hdepth := hbefore.2
  rw [← heq] at hdepth
  exact absurd (h.depth_le hfiled hmem) (by omega)

theorem getLast_putPredicted {k : Last} {prev : Option (Version Pool)} (hfiled : lineage.Filed repo)
    (hk : k ≠ .predicted) (hsame : repo.getLast (prefixOf k) id = some entity)
    (hne : version entity ≠ version next) :
    (EntityRepo.putPredicted repo next prev).getLast (prefixOf k) id = some entity := by
  obtain ⟨sid, hsid, hstore⟩ := Option.bind_eq_some_iff.mp hsame
  have hversion := (hfiled.store sid entity hstore).1
  rw [getLast_eq, referred_putPredicted, if_neg fun h => hk h.1]
  refine Option.bind_eq_some_iff.mpr ⟨sid, hsid, ?_⟩
  refine (lookup_insert_eq _ _ _ _).trans ?_
  rw [if_neg (hversion ▸ hne), hstore]

theorem confirmed_putPredicted {prev : Option (Version Pool)}
    (h : EntityRepo.getLastConfirmed (T := Pool) repo id ≠ none) :
    EntityRepo.getLastConfirmed (T := Pool) (EntityRepo.putPredicted repo next prev) id ≠ none := by
  obtain ⟨conf, hconf⟩ := Option.ne_none_iff_exists'.mp h
  obtain ⟨sid, hsid, hstore⟩ := Option.bind_eq_some_iff.mp hconf
  have href : referred (EntityRepo.putPredicted repo next prev) .confirmed id = some sid := by
    rw [referred_putPredicted, if_neg (by simp)]
    exact hsid
  refine ne_of_eq_of_ne ((getLast_eq _ .confirmed id).trans ?_) (Option.some_ne_none
    (if sid = version next then next else conf))
  rw [href, Option.bind_some]
  refine (lookup_insert_eq _ _ _ _).trans ?_
  rw [hstore]
  split <;> rfl

theorem anchor_putPredicted {prev : Option (Version Pool)} (hfiled : lineage.Filed repo)
    (h : anchor repo id = some entity) (hne : version entity ≠ version next) :
    anchor (EntityRepo.putPredicted repo next prev) id = some entity := by
  rw [anchor_eq] at h ⊢
  cases hunconf : repo.getLast (prefixOf .unconfirmed) id with
  | some a =>
    rw [hunconf, Option.some_or, Option.some.injEq] at h
    subst h
    rw [getLast_putPredicted hfiled (by simp) hunconf hne, Option.some_or]
  | none =>
    rw [hunconf, Option.none_or] at h
    have hnone : referred repo .unconfirmed id = none := by
      cases href : referred repo .unconfirmed id with
      | none => rfl
      | some sid =>
        rw [getLast_eq, href] at hunconf
        exact absurd hunconf (hfiled.kept .unconfirmed id sid href (by simp))
    rw [getLast_eq _ .unconfirmed, referred_putPredicted, if_neg (by simp), hnone, Option.bind_none,
      Option.none_or]
    exact getLast_putPredicted hfiled (by simp) h hne

/-- A later state leaves the links before it as they are. -/
theorem linked_putPredicted (hfiled : lineage.Filed repo)
    (hbefore : lineage.Before sid (version next)) {prev : Option (Version Pool)}
    (hlinked : TransGen (Linked (EntityRepo.getPredictionPredecessor (T := Pool) repo)) sid sid') :
    TransGen (Linked (EntityRepo.getPredictionPredecessor (T := Pool)
      (EntityRepo.putPredicted repo next prev))) sid sid' := by
  have hkeep (v w : Version Pool) (hdepth : lineage.depth v < lineage.depth (version next))
      (hlink : repo.links.lookup v = some w) : EntityRepo.getPredictionPredecessor (T := Pool)
        (EntityRepo.putPredicted repo next prev) v = some w := by
    cases prev with
    | none => exact hlink
    | some prevSid =>
      refine (lookup_insert_eq _ _ _ _).trans ((if_neg ?_).trans hlink)
      rintro rfl
      omega
  induction hlinked with
  | single hlink => exact .single (hkeep _ _ hbefore.2 hlink)
  | tail hfirst hlink ih =>
    have hdepth := (hfiled.depth_of_linked hfirst).2
    exact ih.tail (hkeep _ _ (hdepth.trans hbefore.2) hlink)

theorem Backed.push (h : Backed repo id (init ++ [top])) (hfiled : lineage.Filed repo)
    (howned : rawId (stableId next) = rawId id)
    (hbefore : lineage.Before (version top) (version next)) :
    Backed (EntityRepo.putPredicted repo next (some (version top))) id (init ++ [top] ++ [next]) where
  stored entity hmem := by
    refine (lookup_insert_eq _ _ _ _).trans ?_
    rcases List.mem_append.mp hmem with hmem | hmem
    · rw [if_neg (h.version_ne hfiled hbefore hmem)]
      exact h.stored entity hmem
    · rw [List.mem_singleton.mp hmem, if_pos rfl]
  owned entity hmem := by
    rcases List.mem_append.mp hmem with hmem | hmem
    · exact h.owned entity hmem
    · rw [List.mem_singleton.mp hmem]
      exact howned
  linked := by
    refine List.isChain_append.mpr ⟨?_, List.isChain_singleton _, ?_⟩
    · refine h.linked.imp_of_mem_imp ?_
      intro below above _ habove hlink
      refine (lookup_insert_eq _ _ _ _).trans ?_
      rw [if_neg (h.version_ne hfiled hbefore habove)]
      exact hlink
    · intro below hbelow above habove
      rw [List.getLast?_concat] at hbelow
      cases hbelow
      cases habove
      exact (lookup_insert_eq _ _ _ _).trans (if_pos rfl)
  bottom entity hhead sid hlink := by
    rw [List.head?_append_of_ne_nil _ (by simp)] at hhead
    have hmem := List.mem_of_mem_head? hhead
    have hlink' := (if_neg (h.version_ne hfiled hbefore hmem)).symm.trans
      ((lookup_insert_eq _ _ _ _).symm.trans hlink)
    refine (lookup_insert_eq _ _ _ _).trans ((if_neg ?_).trans (h.bottom entity hhead sid hlink'))
    rintro rfl
    have hdepth := (hfiled.links _ _ hlink').2
    have hle := h.depth_le hfiled hmem
    have hlt := hbefore.2
    omega

theorem Trail.push (h : Trail repo id (init ++ [top])) (hfiled : lineage.Filed repo)
    (howned : rawId (stableId next) = rawId id)
    (hbefore : lineage.Before (version top) (version next)) :
    Trail (EntityRepo.putPredicted repo next (some (version top))) id (init ++ [top] ++ [next]) where
  toBacked := h.toBacked.push hfiled howned hbefore
  top top' hlast := by
    rw [List.getLast?_concat] at hlast
    cases hlast
    obtain ⟨hconf, a, hanchor, htop⟩ := h.top top List.getLast?_concat
    have hpred : EntityRepo.getLastPredicted (T := Pool)
        (EntityRepo.putPredicted repo next (some (version top))) id = some next := by
      refine (getLast_eq _ .predicted id).trans ?_
      rw [referred_putPredicted, if_pos ⟨rfl, howned.symm⟩]
      exact (lookup_insert_eq _ _ _ _).trans (if_pos rfl)
    have hlink : EntityRepo.getPredictionPredecessor (T := Pool)
        (EntityRepo.putPredicted repo next (some (version top))) (version next) =
          some (version top) :=
      (lookup_insert_eq _ _ _ _).trans (if_pos rfl)
    have hanchored : Anchored repo top a := by
      rcases htop with ⟨-, hanchored⟩ | ⟨rfl, -⟩
      · exact hanchored
      · exact .inl rfl
    refine ⟨confirmed_putPredicted hconf, a, ?_, .inl ⟨hpred, .inr ?_⟩⟩
    · apply anchor_putPredicted hfiled hanchor
      have hdepth := hbefore.2
      intro heq
      rcases hanchored with hsame | hlinked
      · rw [hsame, heq] at hdepth
        omega
      · have hlt := (hfiled.depth_of_linked hlinked).2
        rw [heq] at hlt
        omega
    · rcases hanchored with hsame | hlinked
      · exact .single (hlink.trans (congrArg some hsame))
      · exact .head hlink (linked_putPredicted hfiled hbefore hlinked)
  empty hnil := by simp at hnil

theorem Trail.pop (h : Trail repo id (init ++ [top])) (hfiled : lineage.Filed repo) :
    Trail (EntityRepo.invalidate (T := Pool) repo (version top) (stableId top)) id init := by
  have hraw : rawId id = rawId (stableId top) := (h.owned top (by simp)).symm
  have hne (entity : Pool) (hmem : entity ∈ init) : version entity ≠ version top := by
    intro heq
    have hdepth := h.depth_lt hfiled hmem
    rw [heq] at hdepth
    omega
  have hstored (entity : Pool) (hmem : entity ∈ init) :
      (repo.store.erase (version top)).lookup (version entity) = some entity := by
    rw [lookup_erase_eq, if_neg (hne entity hmem)]
    exact h.stored entity (List.mem_append_left _ hmem)
  have hlinks (entity : Pool) (hmem : entity ∈ init) :
      (repo.links.erase (version top)).lookup (version entity) =
        repo.links.lookup (version entity) := by
    rw [lookup_erase_eq, if_neg (hne entity hmem)]
  have hmissing (sid : Version Pool) (hnone : repo.store.lookup sid = none) :
      (repo.store.erase (version top)).lookup sid = none := by
    rw [lookup_erase_eq, hnone, ite_self]
  -- The pool is referred to only as what the invalidated state was predicted from.
  have href (k : Last) :
      (EntityRepo.invalidate (T := Pool) repo (version top) (stableId top)).getLast (prefixOf k) id =
        (if k = .confirmed then repo.links.lookup (version top) else none).bind
          (repo.store.erase (version top)).lookup := by
    rw [getLast_eq, referred_invalidate, if_pos hraw]
    rfl
  obtain ⟨hchain, -, hlast⟩ := List.isChain_append.mp h.linked
  refine ⟨⟨hstored, fun entity hmem => h.owned entity (List.mem_append_left _ hmem), ?_, ?_⟩, ?_, ?_⟩
  · refine hchain.imp_of_mem_imp ?_
    intro below above _ habove hlink
    exact (hlinks above habove).trans hlink
  · intro entity hhead sid hlink
    have hmem := List.mem_of_mem_head? hhead
    refine hmissing sid (h.bottom entity ?_ sid ((hlinks entity hmem).symm.trans hlink))
    rw [List.head?_append_of_ne_nil _ (List.ne_nil_of_mem hmem)]
    exact hhead
  · intro top' htop'
    have hmem := List.mem_of_getLast? htop'
    have hconf : (EntityRepo.invalidate (T := Pool) repo (version top) (stableId top)).getLast
        (prefixOf .confirmed) id = some top' := by
      rw [href, if_pos rfl, hlast top' htop' top rfl]
      exact hstored top' hmem
    refine ⟨ne_of_eq_of_ne hconf (Option.some_ne_none top'), top', ?_, .inr ⟨rfl, ?_⟩⟩
    · rw [anchor_eq, href .unconfirmed, if_neg (by simp), Option.bind_none, Option.none_or]
      exact hconf
    · intro p hp
      have hnone := (href .predicted).symm.trans hp
      cases hnone
  · rintro rfl
    refine ⟨href .predicted, ?_⟩
    rw [anchor_eq, href, href, if_neg (by simp), if_pos rfl, Option.bind_none, Option.none_or]
    cases hlink : repo.links.lookup (version top) with
    | none => rfl
    | some sid => exact hmissing sid (h.bottom top rfl sid hlink)

/-! ### Every known pool has a trail -/

theorem exists_backed (hfiled : lineage.Filed repo) (n : Nat) {top : Pool}
    (hdepth : lineage.depth (version top) = n)
    (hstored : repo.store.lookup (version top) = some top) (howned : rawId (stableId top) = rawId id) :
    ∃ init, Backed repo id (init ++ [top]) := by
  induction n using Nat.strongRecOn generalizing top with
  | ind n ih =>
    have hhome := (hfiled.store _ top hstored).2.trans howned
    by_cases hbelow : ∃ sid below, repo.links.lookup (version top) = some sid ∧
        repo.store.lookup sid = some below
    · obtain ⟨sid, below, hlink, hbelow⟩ := hbelow
      obtain ⟨rfl, howns⟩ := hfiled.store sid below hbelow
      obtain ⟨hsame, hlt⟩ := hfiled.links _ _ hlink
      obtain ⟨init, hinit⟩ := ih _ (hdepth ▸ hlt) rfl hbelow
        (howns.symm.trans (hsame.trans hhome))
      refine ⟨init ++ [below], ⟨?_, ?_, ?_, ?_⟩⟩
      · intro entity hmem
        rcases List.mem_append.mp hmem with hmem | hmem
        · exact hinit.stored entity hmem
        · rwa [List.mem_singleton.mp hmem]
      · intro entity hmem
        rcases List.mem_append.mp hmem with hmem | hmem
        · exact hinit.owned entity hmem
        · rwa [List.mem_singleton.mp hmem]
      · refine List.isChain_append.mpr ⟨hinit.linked, List.isChain_singleton _, ?_⟩
        intro last hlast above habove
        rw [List.getLast?_concat] at hlast
        cases hlast
        cases habove
        exact hlink
      · intro entity hhead
        rw [List.head?_append_of_ne_nil _ (by simp)] at hhead
        exact hinit.bottom entity hhead
    · refine ⟨[], ⟨?_, ?_, List.isChain_singleton _, ?_⟩⟩
      · intro entity hmem
        rwa [List.mem_singleton.mp hmem]
      · intro entity hmem
        rwa [List.mem_singleton.mp hmem]
      · intro entity hhead sid hlink
        cases hhead
        cases hstore : repo.store.lookup sid with
        | none => rfl
        | some below => exact absurd ⟨sid, below, hlink, hstore⟩ hbelow

theorem exists_trail (hfiled : lineage.Filed repo)
    (hconf : EntityRepo.getLastConfirmed (T := Pool) repo id ≠ none) :
    ∃ init top, Trail repo id (init ++ [top]) := by
  obtain ⟨conf, hconf'⟩ := Option.ne_none_iff_exists'.mp hconf
  obtain ⟨a, ha⟩ : ∃ a, anchor repo id = some a := by
    refine Option.ne_none_iff_exists'.mp fun hnone => hconf (anchor_eq_none.mp hnone).1
  have hlast : ∃ k, repo.getLast (prefixOf k) id = some a := by
    rw [anchor_eq] at ha
    rcases Option.or_eq_some_iff.mp ha with hunconf | ⟨-, hconf⟩
    · exact ⟨_, hunconf⟩
    · exact ⟨_, hconf⟩
  have hfinish (top : Pool) (k : Last) (htop : repo.getLast (prefixOf k) id = some top)
      (htopped : Topped repo id top) : ∃ init top, Trail repo id (init ++ [top]) := by
    obtain ⟨hstored, -, howned⟩ := hfiled.of_getLast htop
    obtain ⟨init, hbacked⟩ := exists_backed hfiled _ rfl hstored howned
    refine ⟨init, top, hbacked, ?_, fun hnil => by simp at hnil⟩
    intro top' htop'
    rw [List.getLast?_concat] at htop'
    cases htop'
    exact htopped
  by_cases hpred : ∃ p, EntityRepo.getLastPredicted repo id = some p ∧ Anchored repo p a
  · obtain ⟨p, hp, hanchored⟩ := hpred
    exact hfinish p .predicted hp ⟨hconf, a, ha, .inl ⟨hp, hanchored⟩⟩
  · obtain ⟨k, hk⟩ := hlast
    refine hfinish a k hk ⟨hconf, a, ha, .inr ⟨rfl, ?_⟩⟩
    intro p hp hanchored
    exact hpred ⟨p, hp, hanchored⟩

/-! ### What is resolved -/

theorem resolve_congr (h : rawId id' = rawId id) (fuel : Nat) :
    resolveEntityState (T := Pool) repo id' fuel = resolveEntityState repo id fuel := by
  have hkey (pre : UInt8) :
      InMemoryEntityRepo.indexKey pre id' = InMemoryEntityRepo.indexKey pre id := by
    apply Subtype.ext
    simp only [InMemoryEntityRepo.indexKey, h]
  have hlast (pre : UInt8) : repo.getLast pre id' = repo.getLast pre id := by
    rw [InMemoryEntityRepo.getLast, hkey, InMemoryEntityRepo.getLast]
  rw [resolveEntityState, resolveEntityState]
  simp only [EntityRepo.getLastConfirmed, EntityRepo.getLastUnconfirmed,
    EntityRepo.getLastPredicted, hlast]

theorem exists_getLast_of_resolve {fuel : Nat}
    (h : resolveEntityState repo id fuel = some (some entity)) :
    ∃ k, repo.getLast (prefixOf k) id = some entity := by
  unfold resolveEntityState at h
  split at h
  · rename_i conf pred hconf hpred
    have hanchor : ∃ k, repo.getLast (prefixOf k) id =
        some ((EntityRepo.getLastUnconfirmed repo id).getD conf) := by
      cases hunconf : EntityRepo.getLastUnconfirmed (T := Pool) repo id with
      | none => exact ⟨.confirmed, hconf⟩
      | some a => exact ⟨.unconfirmed, hunconf⟩
    simp only at h
    split at h
    · cases h
      exact ⟨.predicted, hpred⟩
    · obtain ⟨valid, -, hvalid⟩ := Option.map_eq_some_iff.mp h
      cases valid with
      | true =>
        cases hvalid
        exact ⟨.predicted, hpred⟩
      | false =>
        rw [← Option.some.inj hvalid]
        exact hanchor
  · rename_i hunconf _
    cases h
    exact ⟨.unconfirmed, hunconf⟩
  · rename_i hconf _ _
    cases h
    exact ⟨.confirmed, hconf⟩
  · cases h

end Trails

/-! ### The attempts of a run -/

section Attempts

variable {Pool TOrd TOrderId TxCandidate Tx Q W : Type} [EntitySnapshot Pool] [RawStableId Pool]
  [DecidableEq TOrderId] [LE W] [PriorityQueue Q TOrderId W] [UniqueOrder TOrd TOrderId]
  [Weighted TOrd W] {lineage : Lineage Pool} {id : StableId Pool} {stack : List Pool}
  {x : HotOrderExecutor Pool TOrd TOrderId TxCandidate Tx}
  {s s' : State Pool TOrd TOrderId Q (InMemoryEntityRepo Pool)}
  {moves : List (Move Pool TOrd TOrderId Tx)} {reports : List (Report Pool TOrd TOrderId)}

variable (lineage x) in
/-- Orders are run into later states of the same pool. -/
def Descends : Prop :=
  ∀ entity ord txCandidate next, x.tryRun entity ord = .ok (.ok (txCandidate, next)) →
    lineage.Owns entity → rawId (stableId next) = rawId (stableId entity) ∧
      lineage.Before (version entity) (version next)

/-- What is left of the states of a pool above the one that an order was attempted on. -/
def Outcome.leaves (entity : Pool) : Outcome Pool → List Pool
  | notRun => [entity]
  | accepted next => [entity, next]
  | poolIsSpent => []
  | bothAreSpent => []
  | refused => [entity]

variable (id) in
/-- An attempt takes a state of the pool off the stack, and puts back what is left. -/
def stackOps : Report Pool TOrd TOrderId → List (StackOp Pool)
  | .attempted _ entity outcome _ =>
    if rawId (stableId entity) = rawId id then
      .pop entity :: (outcome.leaves entity).map .push
    else []
  | _ => []

omit [RawStableId Pool] [DecidableEq TOrderId] in
theorem tryRun_of_accepted {submitTx : Tx → Except String Unit} {ord : TOrd} {entity next : Pool}
    (h : x.attempt submitTx ord entity = .ok (.accepted next)) :
    ∃ txCandidate, x.tryRun entity ord = .ok (.ok (txCandidate, next)) := by
  obtain ⟨result, hrun, h⟩ := Checked.bind_eq_ok.mp h
  cases result with
  | error e => cases h
  | ok result =>
    obtain ⟨txCandidate, nextEntityState⟩ := result
    simp only at h
    split at h
    · cases h
      exact ⟨txCandidate, hrun⟩
    · split at h
      · cases h
      · split at h <;> cases h

/-- The states of the pool are followed, also while a turn goes on. -/
structure Follows (lineage : Lineage Pool) (id : StableId Pool)
    (s : State Pool TOrd TOrderId Q (InMemoryEntityRepo Pool)) (stack : List Pool) : Prop where
  filed : lineage.Filed s.pools
  trail : Trail s.pools id stack
  stage : ∀ ord entity, s.stage = .resolved ord entity → lineage.Owns entity ∧
    (rawId (stableId entity) = rawId id → stack.getLast? = some entity)

variable (id) in
omit [DecidableEq TOrderId] in
/-- An attempt makes a proper call, about the pool that it is made on. -/
theorem settle_eq_call (hdescends : Descends lineage x) {submitTx : Tx → Except String Unit}
    {ord : TOrd} {entity : Pool} {outcome : Outcome Pool}
    (h : x.attempt submitTx ord entity = .ok outcome) (howns : lineage.Owns entity)
    (repo : InMemoryEntityRepo Pool) : ∃ c, outcome.settle repo entity = EntityRepo.call repo c ∧
      lineage.Proper c ∧ (rawId (stableId entity) ≠ rawId id → Apart id c) := by
  cases outcome with
  | notRun => exact ⟨.mayExist (version entity), rfl, trivial, fun _ => trivial⟩
  | accepted next =>
    obtain ⟨txCandidate, hrun⟩ := tryRun_of_accepted h
    obtain ⟨hid, hbefore⟩ := hdescends entity ord txCandidate next hrun howns
    refine ⟨.putPredicted next (some (version entity)), rfl, ⟨?_, ?_⟩, ?_⟩
    · exact hbefore.1.symm.trans (howns.trans hid.symm)
    · intro sid hsid
      cases hsid
      exact hbefore
    · intro hne heq
      exact hne (hid.symm.trans heq)
  | poolIsSpent => exact ⟨.invalidate (version entity) (stableId entity), rfl, howns, fun hne => hne⟩
  | bothAreSpent => exact ⟨.invalidate (version entity) (stableId entity), rfl, howns, fun hne => hne⟩
  | refused => exact ⟨.mayExist (version entity), rfl, trivial, fun _ => trivial⟩

theorem Follows.attempt (h : Follows lineage id s stack) (hdescends : Descends lineage x)
    {submitTx : Tx → Except String Unit} {ord : TOrd} {entity : Pool} {outcome : Outcome Pool}
    (hstage : s.stage = .resolved ord entity) (hattempt : x.attempt submitTx ord entity = .ok outcome)
    (backlog : HotPriorityBacklog Q TOrd TOrderId) :
    ∃ stack', Stacks stack (stackOps id (reportOfAttempt s.backlog ord entity outcome)) stack' ∧
      Follows lineage id ⟨backlog, outcome.settle s.pools entity, .idle⟩ stack' := by
  obtain ⟨howns, htop⟩ := h.stage ord entity hstage
  obtain ⟨c, hcall, hproper, hapart⟩ := settle_eq_call id hdescends hattempt howns s.pools
  have hfiled : lineage.Filed (outcome.settle s.pools entity) := by
    rw [hcall]
    exact h.filed.call hproper
  have hidle (ord' : TOrd) (entity' : Pool)
      (hnone : (Stage.idle : Stage Pool TOrd) = .resolved ord' entity') : False := by
    cases hnone
  rw [reportOfAttempt, stackOps]
  by_cases hid : rawId (stableId entity) = rawId id
  · obtain ⟨init, rfl⟩ := List.getLast?_eq_some_iff.mp (htop hid)
    rw [if_pos hid]
    refine ⟨init ++ outcome.leaves entity, .pop (Stacks.pushes init _), hfiled, ?_,
      fun ord' entity' hnone => (hidle ord' entity' hnone).elim⟩
    cases outcome with
    | notRun => exact h.trail
    | accepted next =>
      obtain ⟨txCandidate, hrun⟩ := tryRun_of_accepted hattempt
      obtain ⟨hsame, hbefore⟩ := hdescends entity ord txCandidate next hrun howns
      have hpush := h.trail.push h.filed (hsame.trans hid) hbefore
      rwa [List.append_assoc] at hpush
    | poolIsSpent =>
      rw [Outcome.leaves, List.append_nil]
      exact h.trail.pop h.filed
    | bothAreSpent =>
      rw [Outcome.leaves, List.append_nil]
      exact h.trail.pop h.filed
    | refused => exact h.trail
  · rw [if_neg hid]
    refine ⟨stack, .nil stack, hfiled, ?_,
      fun ord' entity' hnone => (hidle ord' entity' hnone).elim⟩
    rw [hcall]
    exact h.trail.of_same h.filed (sameFor_call hproper (hapart hid))

/-- A move of the executor, or a call of others that is not about the pool. -/
theorem Follows.step (h : Follows lineage id s stack) (hdescends : Descends lineage x)
    {move : Move Pool TOrd TOrderId Tx} {report : Report Pool TOrd TOrderId}
    (hothers : ∀ c, move = .pools c → lineage.Proper c ∧ Apart id c)
    (hstep : x.step s move = some (s', report)) :
    ∃ stack', Stacks stack (stackOps id report) stack' ∧ Follows lineage id s' stack' := by
  cases HotOrderExecutor.made_of_step hstep with
  | popped _ _ => exact ⟨stack, .nil stack, h.filed, h.trail, fun _ _ hstage => by cases hstage⟩
  | exhausted _ _ => exact ⟨stack, .nil stack, h.filed, h.trail, fun _ _ hstage => by cases hstage⟩
  | @found fuel ord entity _ hfound =>
    refine ⟨stack, .nil stack, h.filed, h.trail, ?_⟩
    intro ord' entity' hstage
    cases hstage
    obtain ⟨k, hlast⟩ := exists_getLast_of_resolve hfound
    obtain ⟨-, hhome, hown⟩ := h.filed.of_getLast hlast
    refine ⟨hhome.trans hown.symm, fun hid => ?_⟩
    rw [resolve_congr (hown.symm.trans hid)] at hfound
    exact ((h.trail.latest h.filed (some entity)).mp ⟨fuel, hfound⟩).symm
  | notFound _ _ => exact ⟨stack, .nil stack, h.filed, h.trail, fun _ _ hstage => by cases hstage⟩
  | attempted hresolved hattempt => exact h.attempt hdescends hresolved hattempt _
  | backlog c =>
    have hnone : stackOps id (reportOf s.backlog c) = [] := by
      cases c with
      | put ord =>
        rw [reportOf]
        split <;> rfl
      | tryPop =>
        rw [reportOf]
        split <;> rfl
      | softEvict oid => rfl
      | remove oid =>
        rw [reportOf]
        split <;> rfl
    rw [hnone]
    exact ⟨stack, .nil stack, h.filed, h.trail, h.stage⟩
  | pools c =>
    obtain ⟨hproper, hapart⟩ := hothers c rfl
    exact ⟨stack, .nil stack, h.filed.call hproper,
      h.trail.of_same h.filed (sameFor_call hproper hapart), h.stage⟩

theorem Follows.run (h : Follows lineage id s stack) (hdescends : Descends lineage x)
    (hothers : ∀ c, .pools c ∈ moves → lineage.Proper c ∧ Apart id c)
    (hrun : x.run s moves = some (s', reports)) :
    ∃ stack', Stacks stack (reports.flatMap (stackOps id)) stack' ∧
      Follows lineage id s' stack' := by
  induction moves generalizing s stack reports with
  | nil =>
    cases hrun
    exact ⟨stack, .nil stack, h⟩
  | cons move moves ih =>
    obtain ⟨mid, report, reports', hstep, hrest, rfl⟩ := HotOrderExecutor.run_cons_eq_some.mp hrun
    obtain ⟨stack₁, hfirst, hmid⟩ := h.step hdescends
      (fun c hc => hothers c (hc ▸ List.mem_cons_self)) hstep
    obtain ⟨stack₂, hsecond, hend⟩ := ih hmid
      (fun c hc => hothers c (List.mem_cons_of_mem _ hc)) hrest
    rw [List.flatMap_cons]
    exact ⟨stack₂, hfirst.append hsecond, hend⟩

/-! ### Between two calls about a pool -/

/-- Whatever others say of the pools, what is stored is of the right pools. -/
theorem filed_step (hdescends : Descends lineage x) (hfiled : lineage.Filed s.pools)
    (hstage : ∀ ord entity, s.stage = .resolved ord entity → lineage.Owns entity)
    {move : Move Pool TOrd TOrderId Tx} {report : Report Pool TOrd TOrderId}
    (hproper : ∀ c, move = .pools c → lineage.Proper c) (hstep : x.step s move = some (s', report)) :
    lineage.Filed s'.pools ∧
      ∀ ord entity, s'.stage = .resolved ord entity → lineage.Owns entity := by
  cases HotOrderExecutor.made_of_step hstep with
  | popped _ _ => exact ⟨hfiled, fun _ _ hnone => by cases hnone⟩
  | exhausted _ _ => exact ⟨hfiled, fun _ _ hnone => by cases hnone⟩
  | found _ hfound =>
    refine ⟨hfiled, ?_⟩
    intro ord' entity' hsame
    cases hsame
    obtain ⟨k, hlast⟩ := exists_getLast_of_resolve hfound
    obtain ⟨-, hhome, hown⟩ := hfiled.of_getLast hlast
    exact hhome.trans hown.symm
  | notFound _ _ => exact ⟨hfiled, fun _ _ hnone => by cases hnone⟩
  | @attempted _ ord entity outcome hresolved hattempt =>
    obtain ⟨c, hcall, hc, -⟩ := settle_eq_call (stableId entity) hdescends hattempt
      (hstage ord entity hresolved) s.pools
    refine ⟨?_, fun _ _ hnone => by cases hnone⟩
    rw [hcall]
    exact hfiled.call hc
  | backlog c => exact ⟨hfiled, hstage⟩
  | pools c => exact ⟨hfiled.call (hproper c rfl), hstage⟩

theorem filed_run (hdescends : Descends lineage x) (hfiled : lineage.Filed s.pools)
    (hstage : ∀ ord entity, s.stage = .resolved ord entity → lineage.Owns entity)
    (hproper : ∀ c, .pools c ∈ moves → lineage.Proper c)
    (hrun : x.run s moves = some (s', reports)) : lineage.Filed s'.pools ∧
      ∀ ord entity, s'.stage = .resolved ord entity → lineage.Owns entity := by
  induction moves generalizing s reports with
  | nil =>
    cases hrun
    exact ⟨hfiled, hstage⟩
  | cons move moves ih =>
    obtain ⟨mid, report, reports', hstep, hrest, rfl⟩ := HotOrderExecutor.run_cons_eq_some.mp hrun
    obtain ⟨hmid, hmid'⟩ := filed_step hdescends hfiled hstage
      (fun c hc => hproper c (hc ▸ List.mem_cons_self)) hstep
    exact ih hmid hmid' (fun c hc => hproper c (List.mem_cons_of_mem _ hc)) hrest

theorem Lineage.filed_new (lineage : Lineage Pool) :
    lineage.Filed (InMemoryEntityRepo.new : InMemoryEntityRepo Pool) where
  store _ _ h := by cases h
  ref _ _ _ h := by cases h
  kept _ _ _ h := by cases h
  links _ _ h := by cases h

variable (id) in
/-- Between two calls of others about a pool that has a confirmed state, the executor's attempts on
it take turns on a stack of its states: each is made on the last one, adds what its transaction leads
to when that is accepted, and takes the state away when it is spent. The pool is always resolved as
the last state that is left, and as nothing when none is. -/
theorem pool_states_stacked {capacity : Nat} {earlier : List (Move Pool TOrd TOrderId Tx)}
    {reports₀ : List (Report Pool TOrd TOrderId)} (hdescends : Descends lineage x)
    (hproper : ∀ c, .pools c ∈ earlier → lineage.Proper c)
    (hearlier : x.run ⟨.new capacity, .new, .idle⟩ earlier = some (s, reports₀))
    (hconf : EntityRepo.getLastConfirmed (T := Pool) s.pools id ≠ none)
    (hstage : ∀ ord entity, s.stage = .resolved ord entity → rawId (stableId entity) ≠ rawId id)
    (hothers : ∀ c, .pools c ∈ moves → lineage.Proper c ∧ Apart id c)
    (hrun : x.run s moves = some (s', reports)) :
    ∃ stack stack', stack ≠ [] ∧ Backed s.pools id stack ∧ Latest s.pools id stack.getLast? ∧
      Stacks stack (reports.flatMap (stackOps id)) stack' ∧
      Backed s'.pools id stack' ∧ Latest s'.pools id stack'.getLast? := by
  obtain ⟨hfiled, howns⟩ := filed_run hdescends lineage.filed_new
    (fun _ _ hnone => by cases hnone) hproper hearlier
  obtain ⟨init, top, htrail⟩ := exists_trail hfiled hconf
  have hfollows : Follows lineage id s (init ++ [top]) :=
    ⟨hfiled, htrail, fun ord entity h => ⟨howns ord entity h,
      fun hid => absurd hid (hstage ord entity h)⟩⟩
  obtain ⟨stack', hstacks, hend⟩ := hfollows.run hdescends hothers hrun
  exact ⟨init ++ [top], stack', by simp, htrail.toBacked, htrail.latest hfiled, hstacks,
    hend.trail.toBacked, hend.trail.latest hend.filed⟩

end Attempts

/-! ### A prediction that is taken back -/

/-- All versions are of one pool. -/
def sampleLineage : Lineage TestEntity where
  home _ := rawId (T := TestEntity) (1 : UInt8)
  depth sid := UInt8.toNat sid

theorem sampleExecutor_descends : Descends sampleLineage sampleExecutor := by
  intro entity ord txCandidate next hrun howns
  simp only [sampleExecutor] at hrun
  split at hrun
  · cases hrun
  · rename_i hlast
    cases hrun
    refine ⟨rfl, rfl, ?_⟩
    show entity.boxId.toNat < (entity.boxId + 1).toNat
    have hlt := entity.boxId.toNat_lt
    have hne : entity.boxId.toNat ≠ 255 := fun heq => hlast (UInt8.toNat_inj.mp heq)
    rw [UInt8.toNat_add, UInt8.toNat_one, Nat.mod_eq_of_lt (by omega)]
    omega

/-- A transaction is accepted, and the state that it leads to is spent at the next attempt. -/
def sampleAttempts : List (Move TestEntity SampleOrder Nat Unit) :=
  [.backlog (.put ⟨1, 5⟩), .backlog (.put ⟨2, 3⟩), .pop, .resolve 9, .attempt fun _ => .ok (),
    .pop, .resolve 9, .attempt fun _ => .error "825820aa"]

theorem pool_states_stacked_sample : ∃ s' reports stack stack',
    sampleExecutor.run sampleStart sampleAttempts = some (s', reports) ∧
      Latest sampleStart.pools (1 : UInt8) stack.getLast? ∧
      Stacks stack (reports.flatMap (stackOps (1 : UInt8))) stack' ∧
      Latest s'.pools (1 : UInt8) stack'.getLast? := by
  have hearlier : sampleExecutor.run (⟨.new 10, .new, .idle⟩ : State TestEntity SampleOrder Nat
      SampleQueue (InMemoryEntityRepo TestEntity)) [.pools (.putConfirmed sampleBox)] =
        some (sampleStart, [.quiet]) := rfl
  have hrun : (sampleExecutor.run sampleStart sampleAttempts).isSome := by decide +kernel
  obtain ⟨⟨s', reports⟩, hrun⟩ := Option.isSome_iff_exists.mp hrun
  obtain ⟨stack, stack', -, -, hfirst, hstacks, -, hlast⟩ := pool_states_stacked
    (show StableId TestEntity from (1 : UInt8)) sampleExecutor_descends (by simp; rfl) hearlier
    (by decide +kernel) (by simp [sampleStart]) (by simp [sampleAttempts]) hrun
  exact ⟨s', reports, stack, stack', hrun, hfirst, hstacks, hlast⟩

end UtxoMonitor.Executor
