import Calynda.Physics.World

/-!
# Handles

Calls on a world by a caller that keeps what it was handed out. A body that is destroyed makes
another one move unless it is the last one, and what points to the other one then points to a slot
that is no longer used.
-/

namespace Calynda.Physics

variable {K : Type*} [Field K] [LinearOrder K]

/-- A body that was handed out: its slot, whether it has been destroyed since, and the state that
it was given last. -/
structure Handle (K : Type*) where
  slot : Nat
  alive : Bool
  given : PhysBody K

/-- A world, the bodies handed out in their order, and the ones that each constraint was made for,
by their positions in it. -/
structure Session (K : Type*) where
  world : PhysWorld K
  handles : List (Handle K)
  owners : List (Nat × Option Nat)

/-- A call, where the bodies are those handed out. -/
inductive PhysCall (K : Type*) where
  | create (pos : CmVec3 K) (mass : K) (collider : PhysCollider K)
  | createStatic (pos : CmVec3 K) (collider : PhysCollider K)
  | setVelocity (body : Nat) (vel : CmVec3 K)
  | pin (body : Nat) (localAnchor worldAnchor : CmVec3 K)
  | distance (a : Nat) (anchorA : CmVec3 K) (b : Option Nat) (anchorB : CmVec3 K) (distance : K)
  | hinge (a : Nat) (anchorA : CmVec3 K) (b : Option Nat) (anchorB : CmVec3 K) (axis : CmVec3 K)
  | destroy (body : Nat)

def Session.start : Session K := ⟨physWorldInit, [], []⟩

/-- What a creation returns is kept. -/
def Session.handOut (s : Session K) : Option Nat × PhysWorld K → Session K
  | (none, w) => { s with world := w }
  | (some slot, w) => { s with world := w, handles := s.handles ++ [⟨slot, true, w.bodies slot⟩] }

/-- Whom a new constraint was made for is kept. -/
def Session.constrain (s : Session K) (owner : Nat × Option Nat) : Bool × PhysWorld K → Session K
  | (false, w) => { s with world := w }
  | (true, w) => { s with world := w, owners := s.owners ++ [owner] }

/-- The slot of a body that was handed out. -/
def Session.slot (s : Session K) (body : Nat) : Nat :=
  match s.handles[body]? with
  | none => 0
  | some e => e.slot

def Session.call (s : Session K) : PhysCall K → Session K
  | .create pos mass collider => s.handOut (physBodyCreate s.world pos mass collider)
  | .createStatic pos collider => s.handOut (physBodyCreateStatic s.world pos collider)
  | .setVelocity body vel =>
    { s with
      world := physBodySetVelocity s.world (s.slot body) vel
      handles := s.handles.modify body fun e =>
        { e with given := { e.given with linearVelocity := vel } } }
  | .pin body localAnchor worldAnchor =>
    s.constrain (body, none) (physConstraintPin s.world (s.slot body) localAnchor worldAnchor)
  | .distance a anchorA b anchorB d =>
    s.constrain (a, b)
      (physConstraintDistance s.world (s.slot a) anchorA (b.map s.slot) anchorB d)
  | .hinge a anchorA b anchorB axis =>
    s.constrain (a, b)
      (physConstraintHinge s.world (s.slot a) anchorA (b.map s.slot) anchorB axis)
  | .destroy body =>
    { s with
      world := physBodyDestroy s.world (s.slot body)
      handles := s.handles.modify body fun e => { e with alive := false } }

/-- A body that has been handed out and not been destroyed. -/
def Session.Alive (s : Session K) (body : Nat) : Prop :=
  ∃ e, s.handles[body]? = some e ∧ e.alive = true

/-- The handle denotes its body in the state that it was given last. -/
structure Denotes (w : PhysWorld K) (e : Handle K) : Prop where
  used : (e.slot : Int) < w.bodyCount
  state : w.bodies e.slot = e.given

/-- Each handle and each constraint denotes the bodies that it is for. -/
structure HandlesValid (s : Session K) : Prop where
  slots : ∀ i : Nat, (i : Int) < s.world.bodyCount →
    (s.world.bodies i).id = i ∧ (s.world.bodies i).active = true
  handles : ∀ (body : Nat) (e : Handle K), s.handles[body]? = some e → e.alive = true →
    Denotes s.world e
  apart : ∀ (body body' : Nat) (e e' : Handle K), s.handles[body]? = some e →
    s.handles[body']? = some e' → e.alive = true → e'.alive = true → e.slot = e'.slot → body = body'
  constraints : ∀ (j : Nat) (c : PhysConstraint K), s.world.constraints[j]? = some c →
    c.active = true → ∃ owner, s.owners[j]? = some owner ∧ s.Alive owner.1 ∧
      c.bodyA = s.slot owner.1 ∧ c.bodyB = owner.2.map s.slot ∧ ∀ b ∈ owner.2, s.Alive b

/-- Where a call keeps what has been handed out: a body is destroyed only if it is the last one and
no constraint is for it, or again if no other body has its slot. -/
def KeepsHandles (s : Session K) : PhysCall K → Prop
  | .create _ _ _ => True
  | .createStatic _ _ => True
  | .setVelocity body _ => s.Alive body
  | .pin body _ _ => s.Alive body
  | .distance a _ b _ _ => s.Alive a ∧ ∀ body ∈ b, s.Alive body
  | .hinge a _ b _ _ => s.Alive a ∧ ∀ body ∈ b, s.Alive body
  | .destroy body => ∃ e, s.handles[body]? = some e ∧
      if e.alive then
        (e.slot : Int) = s.world.bodyCount - 1 ∧
          ∀ c ∈ s.world.constraints, c.active = true → c.bodyA ≠ e.slot ∧ c.bodyB ≠ some e.slot
      else s.world.bodyCount ≤ e.slot

/-- Sessions of calls that `ok` allows. -/
inductive PhysRun (ok : Session K → PhysCall K → Prop) : Session K → Prop
  | start : PhysRun ok .start
  | call {s : Session K} {c : PhysCall K} (hRun : PhysRun ok s) (hOk : ok s c) :
      PhysRun ok (s.call c)

/-- What holds along a run: slots that are not used hold no active body, either. -/
structure HandlesKept (s : Session K) : Prop extends HandlesValid s where
  idle : ∀ i : Nat, s.world.bodyCount ≤ i → (s.world.bodies i).active = false
  nonneg : 0 ≤ s.world.bodyCount
  owned : s.owners.length = s.world.constraints.length

/-! ## Slots -/

omit [Field K] [LinearOrder K] in
theorem Session.slot_eq {s : Session K} {body : Nat} {e : Handle K}
    (h : s.handles[body]? = some e) : s.slot body = e.slot := by
  rw [Session.slot, h]

/-- A constraint that is active is for this body. -/
def Session.Bound (s : Session K) (body : Nat) : Prop :=
  ∃ c ∈ s.world.constraints, c.active = true ∧
    (c.bodyA = s.slot body ∨ c.bodyB = some (s.slot body))

omit [Field K] [LinearOrder K] in
/-- The constraints stay valid as long as the bodies that they are for stay where they are. -/
theorem HandlesValid.constraints_of {s s' : Session K} (h : HandlesValid s)
    (hConstraints : s'.world.constraints = s.world.constraints) (hOwners : s'.owners = s.owners)
    (hKeep : ∀ b, s.Alive b → s.Bound b → s'.Alive b ∧ s'.slot b = s.slot b) (j : Nat)
    (c : PhysConstraint K) (hC : s'.world.constraints[j]? = some c) (hActive : c.active = true) :
    ∃ owner, s'.owners[j]? = some owner ∧ s'.Alive owner.1 ∧ c.bodyA = s'.slot owner.1 ∧
      c.bodyB = owner.2.map s'.slot ∧ ∀ b ∈ owner.2, s'.Alive b := by
  rw [hConstraints] at hC
  obtain ⟨⟨a, b⟩, hOwner, hAlive, hA, hB, hAliveB⟩ := h.constraints j c hC hActive
  have hMem := List.mem_of_getElem? hC
  obtain ⟨hAliveA, hSlotA⟩ := hKeep a hAlive ⟨c, hMem, hActive, Or.inl hA⟩
  refine ⟨(a, b), hOwners ▸ hOwner, hAliveA, hSlotA ▸ hA, ?_, ?_⟩
  · cases b with
    | none => exact hB
    | some b => rw [hB, Option.map_some, Option.map_some,
        (hKeep b (hAliveB b rfl) ⟨c, hMem, hActive, Or.inr hB⟩).2]
  · intro b' hEq
    obtain rfl : b = some b' := hEq
    exact (hKeep b' (hAliveB b' rfl) ⟨c, hMem, hActive, Or.inr hB⟩).1

/-! ## Creations -/

/-- A creation finds no room, or it fills the first slot that is not used. -/
def Creates (w : PhysWorld K) (result : Option Nat × PhysWorld K) : Prop :=
  result = (none, w) ∨ ∃ b : PhysBody K, b.id = w.bodyCount.toNat ∧ b.active = true ∧
    result = (some w.bodyCount.toNat, { w with
      bodies := Function.update w.bodies w.bodyCount.toNat b, bodyCount := w.bodyCount + 1 })

theorem physBodyCreate_creates (w : PhysWorld K) (pos : CmVec3 K) (mass : K)
    (collider : PhysCollider K) : Creates w (physBodyCreate w pos mass collider) := by
  unfold physBodyCreate
  split_ifs
  · exact Or.inl rfl
  · exact Or.inr ⟨_, rfl, rfl, rfl⟩

theorem physBodyCreateStatic_creates (w : PhysWorld K) (pos : CmVec3 K)
    (collider : PhysCollider K) : Creates w (physBodyCreateStatic w pos collider) := by
  rw [physBodyCreateStatic]
  rcases physBodyCreate_creates w pos 0 collider with hEq | ⟨b, hId, hActive, hEq⟩
  · rw [hEq]
    exact Or.inl rfl
  · rw [hEq]
    refine Or.inr ⟨{ b with isStatic := true }, hId, hActive, ?_⟩
    simp only [Function.update_self, Function.update_idem]

omit [Field K] [LinearOrder K] in
theorem HandlesKept.handOut {s : Session K} (h : HandlesKept s)
    {result : Option Nat × PhysWorld K} (hCreates : Creates s.world result) :
    HandlesKept (s.handOut result) := by
  rcases hCreates with rfl | ⟨b, hId, hActive, rfl⟩
  · exact h
  obtain ⟨n, hCount⟩ := Int.eq_ofNat_of_zero_le h.nonneg
  simp only [Session.handOut, hCount, Int.toNat_natCast] at hId ⊢
  -- the bodies from before are in other slots
  have hOld : ∀ {body : Nat} {e : Handle K}, s.handles[body]? = some e → e.alive = true → e.slot < n := by
    intro body e hEntry hAlive
    have hUsed := (h.handles body e hEntry hAlive).used
    omega
  have hFind : ∀ {body : Nat} {e : Handle K}, (s.handles ++ [⟨n, true, Function.update s.world.bodies n b n⟩])[body]? =
      some e → s.handles[body]? = some e ∨
        body = s.handles.length ∧ e = ⟨n, true, b⟩ := by
    intro body e hEntry
    rw [List.getElem?_append] at hEntry
    split_ifs at hEntry with hLess
    · exact Or.inl hEntry
    · rw [List.getElem?_singleton] at hEntry
      split_ifs at hEntry with hZero
      · refine Or.inr ⟨by omega, ?_⟩
        rw [← Option.some.inj hEntry, Function.update_self]
  refine ⟨⟨fun i hi => ?_, fun body e hEntry hAlive => ?_,
    fun body body' e e' hEntry hEntry' hAlive hAlive' hEq => ?_, ?_⟩, fun i hi => ?_, ?_, h.owned⟩
  · dsimp only at hi ⊢
    by_cases hNew : i = n
    · rw [hNew, Function.update_self]
      exact ⟨hId, hActive⟩
    · rw [Function.update_of_ne hNew]
      exact h.slots i (by omega)
  · rcases hFind hEntry with hBefore | ⟨-, rfl⟩
    · have hNe : e.slot ≠ n := Nat.ne_of_lt (hOld hBefore hAlive)
      have hDenotes := h.handles body e hBefore hAlive
      exact ⟨lt_trans hDenotes.used (by dsimp only; omega),
        (Function.update_of_ne hNe _ _).trans hDenotes.state⟩
    · exact ⟨by dsimp only; omega, Function.update_self _ _ _⟩
  · rcases hFind hEntry with hBefore | ⟨hNew, rfl⟩ <;>
      rcases hFind hEntry' with hBefore' | ⟨hNew', rfl⟩
    · exact h.apart body body' e e' hBefore hBefore' hAlive hAlive' hEq
    · exact absurd hEq (Nat.ne_of_lt (hOld hBefore hAlive))
    · exact absurd hEq.symm (Nat.ne_of_lt (hOld hBefore' hAlive'))
    · exact hNew.trans hNew'.symm
  · refine h.constraints_of rfl rfl fun body hAlive _ => ?_
    obtain ⟨e, hEntry, hLive⟩ := hAlive
    have hStill : (s.handles ++ [⟨n, true, Function.update s.world.bodies n b n⟩])[body]? =
        some e := by
      rw [List.getElem?_append_left (List.getElem?_eq_some_iff.mp hEntry).1, hEntry]
    exact ⟨⟨e, hStill, hLive⟩, (Session.slot_eq hStill).trans (Session.slot_eq hEntry).symm⟩
  · dsimp only at hi ⊢
    rw [Function.update_of_ne (by omega)]
    exact h.idle i (by omega)
  · dsimp only
    omega

/-! ## Constraints -/

omit [Field K] [LinearOrder K] in
theorem HandlesKept.constrain {s : Session K} (h : HandlesKept s) {c : PhysConstraint K}
    {owner : Nat × Option Nat} (hAlive : s.Alive owner.1) (hA : c.bodyA = s.slot owner.1)
    (hB : c.bodyB = owner.2.map s.slot) (hAliveB : ∀ b ∈ owner.2, s.Alive b) :
    HandlesKept (s.constrain owner (addConstraint s.world c)) := by
  rw [addConstraint]
  split_ifs
  · exact h
  have hOwned := h.owned
  have hHandles : ∀ (b : Nat) (e : Handle K), s.handles[b]? = some e → e.alive = true →
      Denotes { s.world with constraints := s.world.constraints ++ [c] } e :=
    fun b e hEntry hLive => ⟨(h.handles b e hEntry hLive).used, (h.handles b e hEntry hLive).state⟩
  refine ⟨⟨h.slots, hHandles, h.apart, fun j d hD hActive => ?_⟩, h.idle, h.nonneg, ?_⟩
  · simp only [Session.constrain] at hD ⊢
    rw [List.getElem?_append] at hD
    split_ifs at hD with hLess
    · obtain ⟨owner', hOwner, hRest⟩ := h.constraints j d hD hActive
      exact ⟨owner', by rw [List.getElem?_append_left (hOwned ▸ hLess), hOwner], hRest⟩
    · rw [List.getElem?_singleton] at hD
      split_ifs at hD with hLast
      obtain rfl := Option.some.inj hD
      refine ⟨owner, ?_, hAlive, hA, hB, hAliveB⟩
      rw [List.getElem?_append_right (by omega), hOwned, hLast, List.getElem?_cons_zero]
  · simp only [Session.constrain, List.length_append, h.owned, List.length_singleton]

/-! ## Velocities and destructions -/

omit [Field K] [LinearOrder K] in
/-- What a change of one handle leaves as it is. -/
theorem getElem?_modify_handle {handles : List (Handle K)} {body : Nat} {f : Handle K → Handle K}
    {b : Nat} {e : Handle K} (hEntry : (handles.modify body f)[b]? = some e) :
    ∃ e', handles[b]? = some e' ∧ e = if body = b then f e' else e' := by
  rw [List.getElem?_modify] at hEntry
  obtain ⟨e', hBefore, hEq⟩ := Option.map_eq_some_iff.mp hEntry
  exact ⟨e', hBefore, hEq.symm⟩

omit [Field K] [LinearOrder K] in
theorem getElem?_modify_of_handle {handles : List (Handle K)} (body : Nat)
    (f : Handle K → Handle K) {b : Nat} {e : Handle K} (hEntry : handles[b]? = some e) :
    (handles.modify body f)[b]? = some (if body = b then f e else e) := by
  rw [List.getElem?_modify, hEntry]
  rfl

omit [Field K] [LinearOrder K] in
/-- A body is changed through its handle. -/
theorem HandlesKept.give {s : Session K} (h : HandlesKept s) {body : Nat} {e : Handle K}
    (hEntry : s.handles[body]? = some e) (hAlive : e.alive = true) {g : PhysBody K → PhysBody K}
    (hId : ∀ b, (g b).id = b.id) (hActive : ∀ b, (g b).active = b.active) :
    HandlesKept { s with
      world := { s.world with
        bodies := Function.update s.world.bodies e.slot (g (s.world.bodies e.slot)) }
      handles := s.handles.modify body fun e => { e with given := g e.given } } := by
  obtain ⟨hUsed, hState⟩ := h.handles body e hEntry hAlive
  have hFind : ∀ {b : Nat} {d : Handle K},
      (s.handles.modify body fun e => { e with given := g e.given })[b]? = some d →
      ∃ d', s.handles[b]? = some d' ∧ d.slot = d'.slot ∧ d.alive = d'.alive ∧
        d.given = if body = b then g d'.given else d'.given := by
    intro b d hD
    obtain ⟨d', hBefore, rfl⟩ := getElem?_modify_handle hD
    refine ⟨d', hBefore, ?_⟩
    split_ifs <;> exact ⟨rfl, rfl, rfl⟩
  have hAt : ∀ i, Function.update s.world.bodies e.slot (g (s.world.bodies e.slot)) i =
      if i = e.slot then g (s.world.bodies i) else s.world.bodies i := by
    intro i
    by_cases hEq : i = e.slot
    · rw [hEq, Function.update_self, if_pos rfl]
    · rw [Function.update_of_ne hEq, if_neg hEq]
  have hSame : ∀ i, (Function.update s.world.bodies e.slot (g (s.world.bodies e.slot)) i).id =
        (s.world.bodies i).id ∧
      (Function.update s.world.bodies e.slot (g (s.world.bodies e.slot)) i).active =
        (s.world.bodies i).active := by
    intro i
    rw [hAt]
    split_ifs
    · exact ⟨hId _, hActive _⟩
    · exact ⟨rfl, rfl⟩
  refine ⟨⟨fun i hi => ?_, fun b d hD hLive => ?_, fun b b' d d' hD hD' hLive hLive' hEq => ?_, ?_⟩,
    fun i hi => (hSame i).2.trans (h.idle i hi), h.nonneg, h.owned⟩
  · obtain ⟨hSlot, hUsed'⟩ := h.slots i hi
    exact ⟨(hSame i).1.trans hSlot, (hSame i).2.trans hUsed'⟩
  · obtain ⟨d', hBefore, hSlot, hLiveEq, hGiven⟩ := hFind hD
    obtain ⟨hUsed', hState'⟩ := h.handles b d' hBefore (hLiveEq ▸ hLive)
    refine ⟨hSlot ▸ hUsed', ?_⟩
    have hMine : d.slot = e.slot ↔ body = b := by
      rw [hSlot]
      constructor
      · exact fun hEq => h.apart body b e d' hEntry hBefore hAlive (hLiveEq ▸ hLive) hEq.symm
      · rintro rfl
        rw [Option.some.inj (hEntry.symm.trans hBefore)]
    simp only [hAt, hGiven, hMine]
    rw [hSlot, hState']
  · obtain ⟨f, hBefore, hSlot, hLiveEq, -⟩ := hFind hD
    obtain ⟨f', hBefore', hSlot', hLiveEq', -⟩ := hFind hD'
    exact h.apart b b' f f' hBefore hBefore' (hLiveEq ▸ hLive) (hLiveEq' ▸ hLive')
      (hSlot ▸ hSlot' ▸ hEq)
  · refine h.constraints_of rfl rfl fun b ⟨d, hD, hLive⟩ _ => ?_
    have hAfter := getElem?_modify_of_handle body
      (fun e : Handle K => { e with given := g e.given }) hD
    refine ⟨⟨_, hAfter, ?_⟩, (Session.slot_eq hAfter).trans ?_⟩
    · split_ifs <;> exact hLive
    · rw [Session.slot_eq hD]
      split_ifs <;> rfl

theorem HandlesKept.setVelocity {s : Session K} (h : HandlesKept s) {body : Nat}
    (hBody : s.Alive body) (vel : CmVec3 K) : HandlesKept (s.call (.setVelocity body vel)) := by
  obtain ⟨e, hEntry, hAlive⟩ := hBody
  rw [Session.call, Session.slot_eq hEntry]
  exact h.give hEntry hAlive (g := fun b => { b with linearVelocity := vel }) (fun _ => rfl)
    fun _ => rfl

omit [Field K] [LinearOrder K] in
/-- The last body goes, which no constraint is for. -/
theorem HandlesKept.destroyLast {s : Session K} (h : HandlesKept s) {body : Nat} {e : Handle K}
    (hEntry : s.handles[body]? = some e) (hAlive : e.alive = true)
    (hLast : (e.slot : Int) = s.world.bodyCount - 1)
    (hFree : ∀ c ∈ s.world.constraints, c.active = true → c.bodyA ≠ e.slot ∧ c.bodyB ≠ some e.slot) :
    HandlesKept { s with
      world := physBodyDestroy s.world e.slot
      handles := s.handles.modify body fun e => { e with alive := false } } := by
  obtain ⟨hUsed, hState⟩ := h.handles body e hEntry hAlive
  obtain ⟨hId, hActive⟩ := h.slots e.slot hUsed
  obtain ⟨gone, hGone, hDestroy⟩ : ∃ gone : PhysBody K, gone.active = false ∧
      physBodyDestroy s.world e.slot = { s.world with
        bodies := Function.update s.world.bodies e.slot gone
        bodyCount := s.world.bodyCount - 1 } := by
    have hNot : ¬((s.world.bodies e.slot).id : Int) < s.world.bodyCount - 1 := by omega
    refine ⟨{ s.world.bodies e.slot with active := false }, rfl, ?_⟩
    rw [physBodyDestroy, if_pos hActive]
    simp only [if_neg hNot]
  rw [hDestroy]
  -- the other handles are for other slots, below the last one
  have hFind : ∀ {b : Nat} {d : Handle K},
      (s.handles.modify body fun e => { e with alive := false })[b]? = some d → d.alive = true →
      s.handles[b]? = some d ∧ b ≠ body ∧ d.slot ≠ e.slot := by
    intro b d hD hLive
    obtain ⟨d', hBefore, rfl⟩ := getElem?_modify_handle hD
    split_ifs at hLive ⊢ with hEq
    refine ⟨hBefore, Ne.symm hEq, fun hSlot => hEq ?_⟩
    exact h.apart body b e d' hEntry hBefore hAlive hLive hSlot.symm
  refine ⟨⟨fun i hi => ?_, fun b d hD hLive => ?_, fun b b' d d' hD hD' hLive hLive' hEq => ?_, ?_⟩,
    fun i hi => ?_, ?_, h.owned⟩
  · dsimp only at hi ⊢
    rw [Function.update_of_ne (by omega)]
    exact h.slots i (by omega)
  · obtain ⟨hBefore, -, hNe⟩ := hFind hD hLive
    obtain ⟨hUsed', hState'⟩ := h.handles b d hBefore hLive
    exact ⟨by dsimp only; omega, (Function.update_of_ne hNe _ _).trans hState'⟩
  · exact h.apart b b' d d' (hFind hD hLive).1 (hFind hD' hLive').1 hLive hLive' hEq
  · refine h.constraints_of rfl rfl fun b ⟨d, hD, hLive⟩ ⟨c, hMem, hActiveC, hFor⟩ => ?_
    have hNe : body ≠ b := by
      rintro rfl
      rw [Session.slot_eq hEntry] at hFor
      obtain ⟨hNotA, hNotB⟩ := hFree c hMem hActiveC
      exact hFor.elim hNotA hNotB
    have hAfter := getElem?_modify_of_handle body (fun e : Handle K => { e with alive := false }) hD
    rw [if_neg hNe] at hAfter
    exact ⟨⟨d, hAfter, hLive⟩, (Session.slot_eq hAfter).trans (Session.slot_eq hD).symm⟩
  · dsimp only at hi ⊢
    by_cases hEq : i = e.slot
    · rw [hEq, Function.update_self, hGone]
    · rw [Function.update_of_ne hEq]
      exact h.idle i (by omega)
  · dsimp only
    omega

omit [Field K] [LinearOrder K] in
/-- A body that has been destroyed is destroyed again. -/
theorem HandlesKept.destroy_again {s : Session K} (h : HandlesKept s) {e : Handle K}
    (hUnused : s.world.bodyCount ≤ e.slot) : physBodyDestroy s.world e.slot = s.world := by
  rw [physBodyDestroy, if_neg]
  rw [h.idle e.slot hUnused]
  exact Bool.false_ne_true

/-! ## Runs -/

omit [LinearOrder K] in
theorem HandlesKept.start : HandlesKept (.start : Session K) where
  slots i hi := by
    simp only [Session.start, physWorldInit] at hi
    omega
  handles b e hEntry := by simp [Session.start] at hEntry
  apart b b' e e' hEntry := by simp [Session.start] at hEntry
  constraints j c hC := by simp [Session.start, physWorldInit] at hC
  idle _ _ := rfl
  nonneg := le_rfl
  owned := rfl

theorem HandlesKept.call {s : Session K} (h : HandlesKept s) {c : PhysCall K}
    (hOk : KeepsHandles s c) : HandlesKept (s.call c) := by
  cases c with
  | create pos mass collider => exact h.handOut (physBodyCreate_creates s.world pos mass collider)
  | createStatic pos collider => exact h.handOut (physBodyCreateStatic_creates s.world pos collider)
  | setVelocity body vel => exact h.setVelocity hOk vel
  | pin body localAnchor worldAnchor =>
    exact h.constrain hOk rfl rfl fun b hNone => absurd hNone (Option.not_mem_none b)
  | distance a anchorA b anchorB d => exact h.constrain hOk.1 rfl rfl hOk.2
  | hinge a anchorA b anchorB axis => exact h.constrain hOk.1 rfl rfl hOk.2
  | destroy body =>
    obtain ⟨e, hEntry, hCase⟩ := hOk
    rw [Session.call, Session.slot_eq hEntry]
    split_ifs at hCase with hAlive
    · exact h.destroyLast hEntry hAlive hCase.1 hCase.2
    · rw [h.destroy_again hCase]
      have hSame : s.handles.modify body (fun e => { e with alive := false }) = s.handles := by
        refine List.ext_getElem? fun b => ?_
        rw [List.getElem?_modify]
        by_cases hEq : body = b
        · obtain ⟨slot, alive, given⟩ := e
          simp_all
        · cases s.handles[b]? <;> simp [hEq]
      rw [hSame]
      exact h

theorem run_handlesKept {s : Session K} (hRun : PhysRun KeepsHandles s) : HandlesKept s := by
  induction hRun with
  | start => exact .start
  | call _ hOk ih => exact ih.call hOk

/-- In every run whose calls keep what has been handed out each handle is valid, and a body that
has been destroyed is destroyed again without an effect. -/
theorem run_handlesValid {s : Session K} (hRun : PhysRun KeepsHandles s) :
    HandlesValid s ∧ ∀ (body : Nat) (e : Handle K), s.handles[body]? = some e → e.alive = false →
      KeepsHandles s (.destroy body) → (s.call (.destroy body)).world = s.world := by
  have hKept := run_handlesKept hRun
  refine ⟨hKept.toHandlesValid, fun body e hEntry hDead hOk => ?_⟩
  obtain ⟨e', hEntry', hCase⟩ := hOk
  obtain rfl := Option.some.inj (hEntry.symm.trans hEntry')
  rw [if_neg (by simp [hDead])] at hCase
  rw [Session.call, Session.slot_eq hEntry]
  exact hKept.destroy_again hCase

/-- Two balls, of which the second one is destroyed. -/
def twoBalls : Session ℚ :=
  (Session.start.call (.create cmVec3Zero 1 (.sphere 1))).call (.create ⟨0, 5, 0⟩ 1 (.sphere 1))

theorem run_handlesValid_last : HandlesValid (twoBalls.call (.destroy 1)) := by
  have hFirst : PhysRun KeepsHandles ((Session.start : Session ℚ).call
      (.create cmVec3Zero 1 (.sphere 1))) := .call .start trivial
  have hBoth : PhysRun KeepsHandles twoBalls := .call hFirst trivial
  have hOk : KeepsHandles twoBalls (.destroy 1) := by
    refine ⟨_, rfl, ?_⟩
    rw [if_pos rfl]
    exact ⟨by decide +kernel, fun c hMem => absurd hMem List.not_mem_nil⟩
  exact (run_handlesValid (.call hBoth hOk)).1

/-- The first one is destroyed, and the handle of the second one is for a slot that is not used. -/
theorem run_destroy_first :
    ¬∀ s : Session ℚ, PhysRun (fun _ _ => True) s → HandlesValid s := by
  intro hAll
  have hRun : PhysRun (fun _ _ => True) (twoBalls.call (.destroy 0)) :=
    .call (.call (.call .start trivial) trivial) trivial
  have hUsed := ((hAll _ hRun).handles 1 _ rfl rfl).used
  exact absurd hUsed (by decide +kernel)

end Calynda.Physics
