import Mathlib.Logic.Function.Basic
import Mathlib.Order.Lattice
import AsterVec.Machines

/-!
The two atomics of the index, `entry_point_` and `max_layer_`, under concurrent calls of
`insertNode`.  The first-node path publishes the entry point and then the layer; the
promotion raises the layer and then stores the entry point.
-/

namespace AsterVec.EntryPoint

open AsterVec.Machines

variable {κ : Type}

/-- What a call of `insertNode` does next. -/
inductive Stage where
  | publish
  | loadEntry
  | firstNode
  | storeMax
  | loadAgain
  | descend (currentEntryPoint : Option Nat)
  | link (currentEntryPoint : Option Nat) (observedMaxLayer : Int)
  | promote (cur : Int)
  | storeEntry
deriving DecidableEq

/-- A call under way for `nodeId`, with the level it has drawn. -/
structure Insert where
  nodeId : Nat
  highestLayer : Nat
  stage : Stage
deriving DecidableEq

/-- `entryPoint` is `none` for `k_invalid_node_id`, `nodes` tells the published ids, and
`drawn` records the level drawn for each node. -/
structure Index (κ : Type) where
  entryPoint : Option Nat
  maxLayer : Int
  nodes : Nat → Bool
  drawn : Nat → Option Nat
  calls : κ → Option Insert

section Steps

variable [DecidableEq κ]

namespace Index

/-- One atomic step of the call `c`: the index after it, and what is left of the call.
`spurious` is the failure a weak compare-exchange may report on its own. -/
def advance (x : Index κ) (c : Insert) (spurious : Bool) : Index κ × Option Insert :=
  match c.stage with
  | .publish =>
      -- nodes of level 0 never enter nodes_
      ({ x with nodes := if 0 < c.highestLayer then Function.update x.nodes c.nodeId true
                         else x.nodes },
        some { c with stage := .loadEntry })
  | .loadEntry =>
      (x, some { c with stage := if x.entryPoint = none then .firstNode else .loadAgain })
  | .firstNode =>
      match x.entryPoint with
      | none => ({ x with entryPoint := some c.nodeId }, some { c with stage := .storeMax })
      | some e => (x, some { c with stage := .descend (some e) })
  | .storeMax => ({ x with maxLayer := c.highestLayer }, none)
  | .loadAgain => (x, some { c with stage := .descend x.entryPoint })
  | .descend e => (x, some { c with stage := .link e (max x.maxLayer 0) })
  | .link _ _ => (x, some { c with stage := .promote x.maxLayer })
  | .promote cur =>
      if cur < c.highestLayer then
        if x.maxLayer = cur ∧ spurious = false then
          ({ x with maxLayer := c.highestLayer }, some { c with stage := .storeEntry })
        else
          (x, some { c with stage := .promote x.maxLayer })
      else
        (x, none)
  | .storeEntry => ({ x with entryPoint := some c.nodeId }, none)

/-- What is left of the call `k`. -/
def resume (k : κ) (r : Index κ × Option Insert) : Index κ :=
  { r.1 with calls := Function.update r.1.calls k r.2 }

end Index

/-- A call begins and draws its level, or a call takes its next step. -/
inductive Label (κ : Type) where
  | start (k : κ) (nodeId highestLayer : Nat)
  | advance (k : κ) (spurious : Bool)

def step (x : Index κ) : Label κ → Option (Index κ)
  | .start k nodeId highestLayer =>
      if x.calls k = none then
        some { x with
          drawn := Function.update x.drawn nodeId (some highestLayer)
          calls := Function.update x.calls k (some ⟨nodeId, highestLayer, .publish⟩) }
      else none
  | .advance k spurious => (x.calls k).map fun c => Index.resume k (x.advance c spurious)

end Steps

/-- The entry point is a node of the top layer, and the top layer is the largest level
drawn; in the empty index there is neither.  Nodes above level 0 are published. -/
def Consistent (x : Index κ) : Prop :=
  (∀ n (h : Nat), x.drawn n = some h → (h : Int) ≤ x.maxLayer ∧ (0 < h → x.nodes n = true)) ∧
    match x.entryPoint with
    | none => x.maxLayer = -1
    | some e => ∃ l : Nat, x.drawn e = some l ∧ x.maxLayer = l

/-- All calls have returned. -/
def Quiet (x : Index κ) : Prop := ∀ k, x.calls k = none

/-- The entry point is known to be of the top layer. -/
def Index.OnTop (x : Index κ) : Prop :=
  (x.entryPoint.bind x.drawn).map Int.ofNat = some x.maxLayer

instance (x : Index κ) : Decidable x.OnTop := inferInstanceAs (Decidable (_ = _))

/-- The stores of a call come in order: no first level over a promotion, and no entry point
over that of a higher node. -/
def Insert.InOrder (x : Index κ) (c : Insert) : Prop :=
  (c.stage = .storeMax → x.maxLayer = -1 ∨ x.maxLayer = c.highestLayer) ∧
    (c.stage = .storeEntry → x.maxLayer = c.highestLayer ∨ ¬ x.OnTop)

instance (x : Index κ) (c : Insert) : Decidable (c.InOrder x) :=
  inferInstanceAs (Decidable ((_ → _) ∧ (_ → _)))

/-- Each node is inserted once, and the stores of the calls come in order. -/
def Orderly (x : Index κ) : Label κ → Prop
  | .start _ nodeId _ => x.drawn nodeId = none
  | .advance k _ => ∀ c ∈ x.calls k, c.InOrder x

instance (x : Index κ) : ∀ l, Decidable (Orderly x l)
  | .start _ nodeId _ => inferInstanceAs (Decidable (x.drawn nodeId = none))
  | .advance k _ => inferInstanceAs (Decidable (∀ c ∈ x.calls k, c.InOrder x))

/-- The stages up to the one that has raised the layer. -/
def Stage.Early (s : Stage) : Prop := s ≠ .storeEntry

/-- The stages reached while the entry point is still unset. -/
def Stage.Vacant (s : Stage) : Prop := s = .publish ∨ s = .loadEntry ∨ s = .firstNode

/-- What every step that meets the condition keeps. -/
structure Kept (x : Index κ) : Prop where
  drawnOf : ∀ k c, x.calls k = some c → x.drawn c.nodeId = some c.highestLayer
  behind : ∀ n (h : Nat), x.drawn n = some h → (h : Int) ≤ x.maxLayer ∨
    ∃ k c, x.calls k = some c ∧ c.nodeId = n ∧ c.stage.Early
  raised : ∀ k c, x.calls k = some c → c.stage = .storeEntry → (c.highestLayer : Int) ≤ x.maxLayer
  seen : ∀ k c m, x.calls k = some c → c.stage = .promote m → m ≤ x.maxLayer
  floor : -1 ≤ x.maxLayer
  vacant : x.entryPoint = none → x.maxLayer = -1 ∧
    ∀ k c, x.calls k = some c → c.stage.Vacant
  first : ∀ k c, x.calls k = some c → c.stage = .storeMax → x.maxLayer = -1 →
    x.entryPoint = some c.nodeId
  top : ∀ e, x.entryPoint = some e → ∃ l : Nat, x.drawn e = some l ∧
    (x.maxLayer = l ∨
      (∃ k c, x.calls k = some c ∧ c.stage = .storeEntry ∧ x.maxLayer = c.highestLayer) ∨
      (x.maxLayer = -1 ∧ ∃ k c, x.calls k = some c ∧ c.stage = .storeMax))
  published : ∀ n h, x.drawn n = some h → 0 < h → x.nodes n = true ∨
    ∃ k c, x.calls k = some c ∧ c.nodeId = n ∧ c.stage = .publish

/-- A consistent index at rest. -/
theorem Consistent.kept {x : Index κ} (hx : Consistent x) (hquiet : Quiet x) : Kept x := by
  have hnone : ∀ {k : κ} {c : Insert}, x.calls k ≠ some c := by
    intro k c hc
    rw [hquiet k] at hc
    cases hc
  rcases hx with ⟨hdrawn, hentry⟩
  refine ⟨fun k c hc => absurd hc hnone, fun n h hn => .inl (hdrawn n h hn).1,
    fun k c hc => absurd hc hnone, fun k c m hc => absurd hc hnone, ?_, ?_,
    fun k c hc => absurd hc hnone, ?_, fun n h hn hpos => .inl ((hdrawn n h hn).2 hpos)⟩
  · cases he : x.entryPoint with
    | none => rw [he] at hentry; omega
    | some e =>
        rw [he] at hentry
        rcases hentry with ⟨l, -, hl⟩
        omega
  · intro he
    rw [he] at hentry
    exact ⟨hentry, fun k c hc => absurd hc hnone⟩
  · intro e he
    rw [he] at hentry
    rcases hentry with ⟨l, hl, hmax⟩
    exact ⟨l, hl, .inl hmax⟩

/-- Once all calls have returned, what is kept is consistency. -/
theorem Kept.consistent {x : Index κ} (hx : Kept x) (hquiet : Quiet x) : Consistent x := by
  have hnone : ∀ {k : κ} {c : Insert}, x.calls k ≠ some c := by
    intro k c hc
    rw [hquiet k] at hc
    cases hc
  constructor
  · intro n h hn
    constructor
    · rcases hx.behind n h hn with hle | ⟨k, c, hc, -⟩
      · exact hle
      · exact absurd hc hnone
    · intro hpos
      rcases hx.published n h hn hpos with hnodes | ⟨k, c, hc, -⟩
      · exact hnodes
      · exact absurd hc hnone
  · cases he : x.entryPoint with
    | none => exact (hx.vacant he).1
    | some e =>
        rcases hx.top e he with ⟨l, hl, hmax | ⟨k, c, hc, -⟩ | ⟨-, k, c, hc, -⟩⟩
        · exact ⟨l, hl, hmax⟩
        · exact absurd hc hnone
        · exact absurd hc hnone

section Kept

variable [DecidableEq κ] {x : Index κ} {k : κ} {c : Insert}

/-- A pending call stays pending when the call `k` moves on, unless it is `k` itself. -/
theorem pending_update {P : Insert → Prop} {calls : κ → Option Insert} (o : Option Insert)
    (h : ∃ j d, calls j = some d ∧ P d) :
    (∃ d, calls k = some d ∧ P d) ∨ ∃ j d, Function.update calls k o j = some d ∧ P d := by
  rcases h with ⟨j, d, hd, hP⟩
  by_cases hj : j = k
  · exact .inl ⟨d, hj ▸ hd, hP⟩
  · exact .inr ⟨j, d, (Function.update_of_ne hj ..).trans hd, hP⟩

theorem pending_self {P : Insert → Prop} {calls : κ → Option Insert} {d : Insert} (hP : P d) :
    ∃ j e, Function.update calls k (some d) j = some e ∧ P e :=
  ⟨k, d, Function.update_self .., hP⟩

/-- A call that is pending in a stage is another one than `k` when `k` is not. -/
theorem pending_other {P : Insert → Prop} {calls : κ → Option Insert}
    (hc : calls k = some c) (hnot : ¬ P c) (o : Option Insert)
    (h : ∃ j d, calls j = some d ∧ P d) :
    ∃ j d, Function.update calls k o j = some d ∧ P d := by
  rcases pending_update o h with ⟨d, hd, hP⟩ | hp
  · obtain rfl : c = d := Option.some.inj (hc.symm.trans hd)
    exact absurd hP hnot
  · exact hp

/-- The entry point stays explained when a call moves on that stores nothing. -/
theorem Kept.top_other (hx : Kept x) (hc : x.calls k = some c)
    (hentry : c.stage ≠ .storeEntry) (hmax : c.stage ≠ .storeMax) (o : Option Insert)
    (e : Nat) (he : x.entryPoint = some e) : ∃ l : Nat, x.drawn e = some l ∧
      (x.maxLayer = l ∨
        (∃ j d, Function.update x.calls k o j = some d ∧ d.stage = .storeEntry ∧
          x.maxLayer = d.highestLayer) ∨
        (x.maxLayer = -1 ∧
          ∃ j d, Function.update x.calls k o j = some d ∧ d.stage = .storeMax)) := by
  obtain ⟨l, hl, htop | hp | ⟨hm, hp⟩⟩ := hx.top e he
  · exact ⟨l, hl, .inl htop⟩
  · exact ⟨l, hl, .inr (.inl (pending_other hc (fun h => hentry h.1) o hp))⟩
  · exact ⟨l, hl, .inr (.inr ⟨hm, pending_other hc hmax o hp⟩)⟩

theorem Kept.published_other (hx : Kept x) (hc : x.calls k = some c)
    (hstage : c.stage ≠ .publish) (o : Option Insert) (n h : Nat)
    (hn : x.drawn n = some h) (hpos : 0 < h) : x.nodes n = true ∨
      ∃ j d, Function.update x.calls k o j = some d ∧ d.nodeId = n ∧
        d.stage = .publish :=
  (hx.published n h hn hpos).imp_right (pending_other hc (fun hp => hstage hp.2) o)

/-- A step that leaves the atomics alone and keeps the call early. -/
theorem Kept.move (hx : Kept x) (hc : x.calls k = some c) {s : Stage}
    (hearly : s ≠ .storeEntry ∧ s ≠ .storeMax ∧ s ≠ .publish)
    (hold : c.stage ≠ .storeEntry ∧ c.stage ≠ .storeMax ∧ c.stage ≠ .publish)
    (hseen : ∀ m, s = .promote m → m ≤ x.maxLayer)
    (hvacant : x.entryPoint = none → s.Vacant) :
    Kept (Index.resume k (x, some { c with stage := s })) := by
  have htop := hx.top_other hc hold.1 hold.2.1 (some { c with stage := s })
  have hpublished := hx.published_other hc hold.2.2 (some { c with stage := s })
  rcases hx with ⟨h1, h2, h3, h4, h5, h6, h7, h8, h9⟩
  constructor <;> simp only [Index.resume, Stage.Early] at *
  · grind
  · intro n h hn
    rcases h2 n h hn with hle | hp
    · exact .inl hle
    · rcases pending_update (some { c with stage := s }) hp with ⟨d, hd, hP⟩ | hp'
      · obtain rfl : c = d := Option.some.inj (hc.symm.trans hd)
        exact .inr (pending_self ⟨hP.1, hearly.1⟩)
      · exact .inr hp'
  · grind
  · grind
  · grind
  · grind
  · grind
  · exact htop
  · exact hpublished

/-- A step past the loads of the entry point. -/
theorem Kept.later (hx : Kept x) (hc : x.calls k = some c) {s : Stage}
    (hold : c.stage ≠ .storeEntry ∧ c.stage ≠ .storeMax ∧ c.stage ≠ .publish)
    (hnew : s ≠ .storeEntry ∧ s ≠ .storeMax ∧ s ≠ .publish ∧ ∀ m, s = .promote m → m ≤ x.maxLayer)
    (hset : ¬ c.stage.Vacant) :
    Kept (Index.resume k (x, some { c with stage := s })) :=
  hx.move hc ⟨hnew.1, hnew.2.1, hnew.2.2.1⟩ hold hnew.2.2.2
    fun hentry => absurd ((hx.vacant hentry).2 k c hc) hset

/-- The call ends, with its level not above the top layer. -/
theorem Kept.pass (hx : Kept x) (hc : x.calls k = some c) {m : Int}
    (hstage : c.stage = .promote m) (hle : ¬ m < c.highestLayer) :
    Kept (Index.resume k (x, none)) := by
  have htop := hx.top_other hc (by simp [hstage]) (by simp [hstage]) none
  have hpublished := hx.published_other hc (by simp [hstage]) none
  rcases hx with ⟨h1, h2, h3, h4, h5, h6, h7, h8, h9⟩
  constructor <;> simp only [Index.resume, Stage.Early] at *
  · grind
  · intro n h hn
    rcases h2 n h hn with hle' | hp
    · exact .inl hle'
    · rcases pending_update none hp with ⟨d, hd, rfl, -⟩ | hp'
      · obtain rfl : c = d := Option.some.inj (hc.symm.trans hd)
        obtain rfl : h = c.highestLayer := Option.some.inj (hn.symm.trans (h1 k c hc))
        have hseen := h4 k c m hc hstage
        exact .inl (by omega)
      · exact .inr hp'
  · grind
  · grind
  · grind
  · grind
  · grind
  · exact htop
  · exact hpublished

theorem Kept.publish (hx : Kept x) (hc : x.calls k = some c) (hstage : c.stage = .publish) :
    Kept (Index.resume k
      ({ x with nodes := if 0 < c.highestLayer then Function.update x.nodes c.nodeId true
                         else x.nodes },
        some { c with stage := .loadEntry })) := by
  have htop := hx.top_other hc (by simp [hstage]) (by simp [hstage])
    (some { c with stage := .loadEntry })
  rcases hx with ⟨h1, h2, h3, h4, h5, h6, h7, h8, h9⟩
  constructor <;> simp only [Index.resume, Stage.Early, Stage.Vacant] at *
  · grind
  · intro n h hn
    rcases h2 n h hn with hle | hp
    · exact .inl hle
    · rcases pending_update (some { c with stage := .loadEntry }) hp with ⟨d, hd, hP⟩ | hp'
      · obtain rfl : c = d := Option.some.inj (hc.symm.trans hd)
        exact .inr (pending_self ⟨hP.1, by simp⟩)
      · exact .inr hp'
  · grind
  · grind
  · grind
  · grind
  · grind
  · exact htop
  · intro n h hn hpos
    rcases h9 n h hn hpos with hnodes | hp
    · left
      grind
    · rcases pending_update (some { c with stage := .loadEntry }) hp with ⟨d, hd, rfl, -⟩ | hp'
      · obtain rfl : c = d := Option.some.inj (hc.symm.trans hd)
        obtain rfl : h = c.highestLayer := Option.some.inj (hn.symm.trans (h1 k c hc))
        left
        rw [if_pos hpos]
        exact Function.update_self ..
      · exact .inr hp'

/-- The compare-exchange that makes a node the first. -/
theorem Kept.elect (hx : Kept x) (hc : x.calls k = some c) (hstage : c.stage = .firstNode)
    (hentry : x.entryPoint = none) :
    Kept (Index.resume k
      ({ x with entryPoint := some c.nodeId }, some { c with stage := .storeMax })) := by
  have hpublished := hx.published_other hc (by simp [hstage]) (some { c with stage := .storeMax })
  rcases hx with ⟨h1, h2, h3, h4, h5, h6, h7, h8, h9⟩
  have hmax := (h6 hentry).1
  constructor <;> simp only [Index.resume, Stage.Early, Stage.Vacant] at *
  · grind
  · intro n h hn
    rcases h2 n h hn with hle | hp
    · exact .inl hle
    · rcases pending_update (some { c with stage := .storeMax }) hp with ⟨d, hd, hP⟩ | hp'
      · obtain rfl : c = d := Option.some.inj (hc.symm.trans hd)
        exact .inr (pending_self ⟨hP.1, by simp⟩)
      · exact .inr hp'
  · grind
  · grind
  · grind
  · grind
  · grind
  · intro e he
    obtain rfl : c.nodeId = e := Option.some.inj he
    exact ⟨c.highestLayer, h1 k c hc, .inr (.inr ⟨hmax, pending_self rfl⟩)⟩
  · exact hpublished

theorem Kept.storeMax (hx : Kept x) (hc : x.calls k = some c) (hstage : c.stage = .storeMax)
    (hmax : x.maxLayer = -1 ∨ x.maxLayer = c.highestLayer) :
    Kept (Index.resume k ({ x with maxLayer := c.highestLayer }, none)) := by
  have hpublished := hx.published_other hc (by simp [hstage]) none
  rcases hx with ⟨h1, h2, h3, h4, h5, h6, h7, h8, h9⟩
  constructor <;> simp only [Index.resume, Stage.Early, Stage.Vacant] at *
  · grind
  · intro n h hn
    rcases h2 n h hn with hle | hp
    · left
      omega
    · rcases pending_update none hp with ⟨d, hd, rfl, -⟩ | hp'
      · obtain rfl : c = d := Option.some.inj (hc.symm.trans hd)
        obtain rfl : h = c.highestLayer := Option.some.inj (hn.symm.trans (h1 k c hc))
        exact .inl le_rfl
      · exact .inr hp'
  · grind
  · grind
  · grind
  · grind
  · grind
  · intro e he
    rcases h8 e he with ⟨l, hl, hl' | ⟨j, d, hd, hs, hd'⟩ | ⟨hm, -⟩⟩
    · exact ⟨l, hl, .inl (by omega)⟩
    · refine ⟨l, hl, .inr (.inl ⟨j, d, ?_, hs, by omega⟩)⟩
      grind
    · have hentry := h7 k c hc hstage hm
      obtain rfl : c.nodeId = e := Option.some.inj (hentry.symm.trans he)
      exact ⟨c.highestLayer, h1 k c hc, .inl rfl⟩
  · exact hpublished

/-- The compare-exchange that raises the layer. -/
theorem Kept.raise (hx : Kept x) (hc : x.calls k = some c)
    (hstage : c.stage = .promote x.maxLayer) (hlt : x.maxLayer < c.highestLayer) :
    Kept (Index.resume k
      ({ x with maxLayer := c.highestLayer }, some { c with stage := .storeEntry })) := by
  have hpublished := hx.published_other hc (by simp [hstage])
    (some { c with stage := .storeEntry })
  rcases hx with ⟨h1, h2, h3, h4, h5, h6, h7, h8, h9⟩
  constructor <;> simp only [Index.resume, Stage.Early, Stage.Vacant] at *
  · grind
  · intro n h hn
    rcases h2 n h hn with hle | hp
    · left
      omega
    · rcases pending_update (some { c with stage := .storeEntry }) hp with ⟨d, hd, rfl, -⟩ | hp'
      · obtain rfl : c = d := Option.some.inj (hc.symm.trans hd)
        obtain rfl : h = c.highestLayer := Option.some.inj (hn.symm.trans (h1 k c hc))
        exact .inl le_rfl
      · exact .inr hp'
  · grind
  · grind
  · grind
  · grind
  · grind
  · intro e he
    rcases h8 e he with ⟨l, hl, -⟩
    exact ⟨l, hl, .inr (.inl (pending_self ⟨rfl, rfl⟩))⟩
  · exact hpublished

theorem Kept.storeEntry (hx : Kept x) (hc : x.calls k = some c)
    (hstage : c.stage = .storeEntry) (horder : x.maxLayer = c.highestLayer ∨ ¬ x.OnTop) :
    Kept (Index.resume k ({ x with entryPoint := some c.nodeId }, none)) := by
  have hpublished := hx.published_other hc (by simp [hstage]) none
  rcases hx with ⟨h1, h2, h3, h4, h5, h6, h7, h8, h9⟩
  have hraised := h3 k c hc hstage
  constructor <;> simp only [Index.resume, Stage.Early, Stage.Vacant] at *
  · grind
  · intro n h hn
    rcases h2 n h hn with hle | hp
    · exact .inl hle
    · rcases pending_update none hp with ⟨d, hd, -, hearly⟩ | hp'
      · obtain rfl : c = d := Option.some.inj (hc.symm.trans hd)
        exact absurd hstage hearly
      · exact .inr hp'
  · grind
  · grind
  · grind
  · grind
  · grind
  · intro e he
    obtain rfl : c.nodeId = e := Option.some.inj he
    refine ⟨c.highestLayer, h1 k c hc, ?_⟩
    cases hentry : x.entryPoint with
    | none => grind
    | some e' =>
        rcases h8 e' hentry with ⟨l, hl, hl' | hp | ⟨hm, -⟩⟩
        · refine .inl (horder.resolve_right fun hne => hne ?_)
          rw [Index.OnTop, hentry, Option.bind_some, hl, hl']
          rfl
        · rcases pending_update none hp with ⟨d, hd, -, hd'⟩ | hp'
          · obtain rfl : c = d := Option.some.inj (hc.symm.trans hd)
            exact .inl hd'
          · exact .inr (.inl hp')
        · omega
  · exact hpublished

theorem Kept.start (hx : Kept x) (hfree : x.calls k = none) {nodeId h : Nat}
    (hfresh : x.drawn nodeId = none) :
    Kept { x with
      drawn := Function.update x.drawn nodeId (some h)
      calls := Function.update x.calls k (some ⟨nodeId, h, .publish⟩) } := by
  rcases hx with ⟨h1, h2, h3, h4, h5, h6, h7, h8, h9⟩
  have hpending : ∀ {P : Insert → Prop}, (∃ j d, x.calls j = some d ∧ P d) →
      ∃ j d, Function.update x.calls k (some ⟨nodeId, h, .publish⟩) j = some d ∧ P d := by
    intro P hp
    rcases pending_update (some ⟨nodeId, h, .publish⟩) hp with ⟨d, hd, -⟩ | hp'
    · rw [hfree] at hd
      cases hd
    · exact hp'
  constructor <;> simp only [Stage.Early, Stage.Vacant] at *
  · grind
  · intro n m hn
    by_cases hnode : n = nodeId
    · exact .inr (pending_self ⟨hnode.symm, by simp⟩)
    · rw [Function.update_of_ne hnode] at hn
      rcases h2 n m hn with hle | hp
      · exact .inl hle
      · exact .inr (hpending hp)
  · grind
  · grind
  · grind
  · grind
  · grind
  · intro e he
    rcases h8 e he with ⟨l, hl, hmax⟩
    have hne : e ≠ nodeId := by
      rintro rfl
      rw [hfresh] at hl
      cases hl
    refine ⟨l, (Function.update_of_ne hne ..).trans hl, ?_⟩
    rcases hmax with hl' | hp | ⟨hm, hp⟩
    · exact .inl hl'
    · exact .inr (.inl (hpending hp))
    · exact .inr (.inr ⟨hm, hpending hp⟩)
  · intro n m hn hpos
    by_cases hnode : n = nodeId
    · exact .inr (pending_self ⟨hnode.symm, rfl⟩)
    · rw [Function.update_of_ne hnode] at hn
      rcases h9 n m hn hpos with hnodes | hp
      · exact .inl hnodes
      · exact .inr (hpending hp)

theorem Kept.step {l : Label κ} {y : Index κ} (hx : Kept x) (horder : Orderly x l)
    (hstep : step x l = some y) : Kept y := by
  cases l with
  | start k nodeId h =>
      simp only [EntryPoint.step, Option.ite_none_right_eq_some, Option.some.injEq] at hstep
      rcases hstep with ⟨hfree, rfl⟩
      exact hx.start hfree horder
  | advance k spurious =>
      rcases Option.map_eq_some_iff.mp hstep with ⟨c, hc, rfl⟩
      have horder' := horder c hc
      unfold Index.advance
      rcases c with ⟨nodeId, h, stage⟩
      cases stage with
      | publish => exact hx.publish hc rfl
      | loadEntry =>
          simp only
          split
          · exact hx.move hc (by simp) (by simp) (by simp) fun _ => .inr (.inr rfl)
          · next hentry =>
            exact hx.move hc (by simp) (by simp) (by simp) fun h => absurd h hentry
      | firstNode =>
          cases hentry : x.entryPoint with
          | none => exact hx.elect hc rfl hentry
          | some e =>
              exact hx.move hc (by simp) (by simp) (by simp)
                fun h => absurd (hentry.symm.trans h) (by simp)
      | storeMax => exact hx.storeMax hc rfl (horder'.1 rfl)
      | loadAgain => exact hx.later hc (by simp) (by simp) (by simp [Stage.Vacant])
      | descend e => exact hx.later hc (by simp) (by simp) (by simp [Stage.Vacant])
      | link e m =>
          exact hx.later hc (by simp) (by simp) (by simp [Stage.Vacant])
      | promote cur =>
          simp only
          split
          · next hlt =>
            split
            · next hcas =>
              rcases hcas with ⟨rfl, -⟩
              exact hx.raise hc rfl hlt
            · exact hx.later hc (by simp) (by simp) (by simp [Stage.Vacant])
          · next hle => exact hx.pass hc rfl hle
      | storeEntry => exact hx.storeEntry hc rfl (horder'.2 rfl)

end Kept

section Runs

variable [DecidableEq κ]

/-- **The entry point stays on the top layer** in every run whose steps are in order. -/
theorem consistent_of_orderly {x y : Index κ} {ls : List (Label κ)} (hx : Consistent x)
    (hquiet : Quiet x) (hmeets : Meets step Orderly x ls) (hrun : run step x ls = some y)
    (hdone : Quiet y) : Consistent y :=
  (hmeets.invariant (fun _ _ _ hinv horder hstep => Kept.step hinv horder hstep)
    (hx.kept hquiet) hrun).consistent hdone

end Runs

/-- The index before its first node. -/
def Index.empty : Index κ :=
  { entryPoint := none, maxLayer := -1, nodes := fun _ => false, drawn := fun _ => none,
    calls := fun _ => none }

theorem consistent_empty : Consistent (Index.empty : Index κ) :=
  ⟨fun _ _ h => (Option.some_ne_none _ h.symm).elim, rfl⟩

theorem quiet_empty : Quiet (Index.empty : Index κ) := fun _ => rfl

/-- The steps of a first node, up to its `max_layer_` store. -/
def electing (nodeId level : Nat) : List (Label Bool) :=
  .start false nodeId level :: List.replicate 3 (.advance false false)

/-- All steps of an insert that finds an entry point and promotes its node. -/
def promoting (nodeId level : Nat) : List (Label Bool) :=
  .start true nodeId level :: List.replicate 7 (.advance true false)

/-- The first node, and then a promotion. -/
theorem consistent_inTurn :
    ∃ y, run step Index.empty (electing 0 0 ++ .advance false false :: promoting 1 1) = some y ∧
      y.entryPoint = some 1 ∧ y.maxLayer = 1 ∧ Consistent y :=
  ⟨_, rfl, rfl, rfl, consistent_of_orderly consistent_empty quiet_empty (by decide)
    (rfl : run step _ (electing 0 0 ++ .advance false false :: promoting 1 1) = some _)
    (by rintro (_ | _) <;> rfl)⟩

/-- A promotion between the two stores of the first node: the layer of the first node is
stored over that of the promoted one. -/
theorem crossing_lowersTop :
    ¬ ∀ (x y : Index Bool) (ls : List (Label Bool)), Consistent x → Quiet x →
      run step x ls = some y → Quiet y → Consistent y := by
  intro h
  have hbad := h Index.empty _ (electing 0 0 ++ promoting 1 1 ++ [.advance false false])
    consistent_empty quiet_empty rfl (by rintro (_ | _) <;> rfl)
  rcases hbad.2 with ⟨l, hl, hmax⟩
  obtain rfl : 1 = l := Option.some.inj hl
  exact absurd hmax (by decide)

end AsterVec.EntryPoint
