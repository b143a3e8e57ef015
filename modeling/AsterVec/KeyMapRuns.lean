import AsterVec.IdTypes
import AsterVec.KeyMap
import Mathlib.Data.List.Nodup
import Mathlib.Logic.Relation

/-!
Writers of a keyed store resolve their keys under sharded locks.  The id map survives
kills; the counter of dense ids is rebuilt from it and from the log.
-/

namespace AsterVec.KeyMap

open AsterVec.IdTypes
open AsterVec.PointIds

/-- Where a write call stands in `resolveId`. -/
inductive Resolving where
  | waiting (key : Key)
  | locked (key : Key)
  | missing (key : Key)
  | allocated (key : Key) (next : Nat)
  | resolved (key : Key) (dense : Nat)
  | refused

/-- The key whose lock is held. -/
def Resolving.lockedKey : Resolving → Option Key
  | .locked key | .missing key | .allocated key _ => some key
  | _ => none

/-- A bulk build before and after its keys are put. -/
inductive Bulk where
  | checked (keys : List (Key × Nat))
  | mapped (n : Nat)

inductive Stage where
  | closed
  | replaying (records : List (Key × Nat))
  | opened

/-- `ids` and `oplog` are on disk, the rest is gone with the process.  The log is seen
as the key and the dense id of its records. -/
structure Machine where
  ids : Entries
  oplog : List (Key × Nat)
  nextDenseId : Nat
  writers : Nat → Option Resolving
  bulk : Option Bulk
  stage : Stage

namespace Machine

/-- No store was created yet. -/
def fresh : Machine := ⟨[], [], 0, fun _ => none, none, .closed⟩

def setWriter (m : Machine) (t : Nat) (w : Option Resolving) : Machine :=
  { m with writers := Function.update m.writers t w }

end Machine

/-- The counter after an id was seen in the log. -/
def observeDenseId (dense next : Nat) : Nat := if next ≤ dense then dense + 1 else next

/-- The pairs of a bulk build: vector `i` gets dense id `i`. -/
def bulkKeys (ids : List PointId) : List (Key × Nat) := (ids.map encode).zipIdx

/-- One step of a thread, of an open or of a kill; `shard` is the lock of a key. -/
inductive Step (shard : Key → Nat) (m : Machine) : Machine → Prop where
  | begins (t : Nat) (id : PointId) (hopened : m.stage = .opened) (hgate : m.bulk = none)
      (hfree : m.writers t = none) : Step shard m (m.setWriter t (some (.waiting (encode id))))
  | locks (t : Nat) (key : Key) (hwaiting : m.writers t = some (.waiting key))
      (hlock : ∀ t' w held, m.writers t' = some w → w.lockedKey = some held →
        shard held ≠ shard key) :
      Step shard m (m.setWriter t (some (.locked key)))
  | finds (t : Nat) (key : Key) (d : Nat) (hlocked : m.writers t = some (.locked key))
      (hfound : lookupKey m.ids key = .found d) :
      Step shard m (m.setWriter t (some (.resolved key d)))
  | misses (t : Nat) (key : Key) (hlocked : m.writers t = some (.locked key))
      (hfound : lookupKey m.ids key = .notFound) :
      Step shard m (m.setWriter t (some (.missing key)))
  | fails (t : Nat) (w : Resolving) (hwriter : m.writers t = some w) :
      Step shard m (m.setWriter t (some .refused))
  | allocates (t : Nat) (key : Key) (hmissing : m.writers t = some (.missing key)) :
      Step shard m
        ({ m with nextDenseId := m.nextDenseId + 1 }.setWriter t
          (if m.nextDenseId ≤ kMaxRealId then some (.allocated key m.nextDenseId)
           else some .refused))
  | puts (t : Nat) (key : Key) (next : Nat)
      (hallocated : m.writers t = some (.allocated key next)) :
      Step shard m
        ({ m with ids := putKey key next m.ids }.setWriter t (some (.resolved key next)))
  | logs (t : Nat) (key : Key) (d : Nat) (hresolved : m.writers t = some (.resolved key d)) :
      Step shard m { m with oplog := m.oplog ++ [(key, d)] }
  | ends (t : Nat) (w : Resolving) (hwriter : m.writers t = some w)
      (hunlocked : w.lockedKey = none) : Step shard m (m.setWriter t none)
  | bulkBegins (ids : List PointId) (hopened : m.stage = .opened) (hgate : m.bulk = none)
      (hwriters : ∀ t, m.writers t = none) (hempty : m.nextDenseId = 0)
      (hdistinct : ids.Nodup) (hint : ids.length < 2 ^ 31) :
      Step shard m { m with bulk := some (.checked (bulkKeys ids)) }
  | bulkFails (keys : List (Key × Nat)) (hbulk : m.bulk = some (.checked keys)) :
      Step shard m { m with bulk := none }
  | bulkPuts (keys : List (Key × Nat)) (hbulk : m.bulk = some (.checked keys)) :
      Step shard m { m with ids := putKeys keys m.ids, bulk := some (.mapped keys.length) }
  | bulkCounts (n : Nat) (hbulk : m.bulk = some (.mapped n)) :
      Step shard m { m with nextDenseId := n, bulk := none }
  | truncates (oplog : List (Key × Nat)) (hsub : oplog.Sublist m.oplog) :
      Step shard m { m with oplog := oplog }
  | kills : Step shard m
      { m with nextDenseId := 0, writers := fun _ => none, bulk := none, stage := .closed }
  | opens (found : Option Nat) (records : List (Key × Nat)) (hclosed : m.stage = .closed)
      (hmax : maxMappedId m.ids = some found) (hsub : records.Sublist m.oplog) :
      Step shard m
        { m with nextDenseId := found.elim 0 (· + 1), stage := .replaying records }
  | replays (key : Key) (d : Nat) (records : List (Key × Nat))
      (hreplaying : m.stage = .replaying ((key, d) :: records)) :
      Step shard m
        { m with
          ids := putKey key d m.ids
          nextDenseId := observeDenseId d m.nextDenseId
          stage := .replaying records }
  | starts (hreplayed : m.stage = .replaying []) : Step shard m { m with stage := .opened }

/-- The states of a store from its creation on. -/
def Reachable (shard : Key → Nat) (m : Machine) : Prop :=
  Relation.ReflTransGen (Step shard) .fresh m

/-! The invariant -/

/-- What a call knows of the map. -/
def Resolving.Fits (next : Nat) (pairs : List (Key × Nat)) : Resolving → Prop
  | .missing key => ∀ d, (key, d) ∉ pairs
  | .allocated key n =>
      n < 2 ^ 63 ∧ n < next ∧ (∀ d, (key, d) ∉ pairs) ∧ ∀ other, (other, n) ∉ pairs
  | .resolved key d => (key, d) ∈ pairs
  | _ => True

def Bulk.Fits (next : Nat) (pairs : List (Key × Nat)) : Bulk → Prop
  | .checked keys => next = 0 ∧ (keys.map Prod.fst).Nodup ∧ (keys.map Prod.snd).Nodup ∧
      keys.length < 2 ^ 31 ∧ ∀ item ∈ keys, item.2 < keys.length
  | .mapped n => ∀ pair ∈ pairs, pair.2 < n

structure Inv (shard : Key → Nat) (m : Machine) (pairs : List (Key × Nat)) : Prop where
  stores : Stores m.ids pairs
  logged : ∀ record ∈ m.oplog, record ∈ pairs
  replayed : ∀ records, m.stage = .replaying records → ∀ record ∈ records, record ∈ pairs
  counted : m.stage ≠ .closed → (∀ n, m.bulk ≠ some (.mapped n)) →
    ∀ pair ∈ pairs, pair.2 < m.nextDenseId
  writing : ∀ t w, m.writers t = some w →
    m.stage = .opened ∧ m.bulk = none ∧ w.Fits m.nextDenseId pairs
  locks : ∀ t t' w w' key key', t ≠ t' → m.writers t = some w → m.writers t' = some w' →
    w.lockedKey = some key → w'.lockedKey = some key' → shard key ≠ shard key'
  distinct : ∀ t t' key key' n n', t ≠ t' → m.writers t = some (.allocated key n) →
    m.writers t' = some (.allocated key' n') → n ≠ n'
  bulk : ∀ b, m.bulk = some b → m.stage = .opened ∧ b.Fits m.nextDenseId pairs

theorem inv_fresh (shard : Key → Nat) : Inv shard .fresh [] where
  stores := stores_nil
  logged := by simp [Machine.fresh]
  replayed := by simp [Machine.fresh]
  counted := by simp
  writing := by simp [Machine.fresh]
  locks := by simp [Machine.fresh]
  distinct := by simp [Machine.fresh]
  bulk := by simp [Machine.fresh]

section Writers

variable {shard : Key → Nat} {m : Machine} {pairs : List (Key × Nat)} {t : Nat}

theorem setWriter_some {w : Option Resolving} {t' : Nat} {x : Resolving}
    (hx : (m.setWriter t w).writers t' = some x) :
    t' = t ∧ w = some x ∨ t' ≠ t ∧ m.writers t' = some x := by
  change Function.update m.writers t w t' = some x at hx
  rcases eq_or_ne t' t with rfl | hne
  · rw [Function.update_self] at hx
    exact .inl ⟨rfl, hx⟩
  · rw [Function.update_of_ne hne] at hx
    exact .inr ⟨hne, hx⟩

/-- A writer moves on: what it knows fits and its lock is free or its own. -/
theorem Inv.setWriter (hinv : Inv shard m pairs) {w : Resolving}
    (hopen : m.stage = .opened ∧ m.bulk = none) (hfits : w.Fits m.nextDenseId pairs)
    (hlock : ∀ key, w.lockedKey = some key → ∀ t' w' key', t' ≠ t →
      m.writers t' = some w' → w'.lockedKey = some key' → shard key' ≠ shard key)
    (hdistinct : ∀ key n, w = .allocated key n → ∀ t' key' n', t' ≠ t →
      m.writers t' = some (.allocated key' n') → n' ≠ n) :
    Inv shard (m.setWriter t (some w)) pairs where
  stores := hinv.stores
  logged := hinv.logged
  replayed := hinv.replayed
  counted := hinv.counted
  writing := by
    intro t' x hx
    rcases setWriter_some hx with ⟨-, heq⟩ | ⟨-, hold⟩
    · cases heq
      exact ⟨hopen.1, hopen.2, hfits⟩
    · exact hinv.writing t' x hold
  locks := by
    intro t₁ t₂ w₁ w₂ key₁ key₂ hne h₁ h₂ hkey₁ hkey₂
    rcases setWriter_some h₁ with ⟨rfl, heq₁⟩ | ⟨hne₁, hold₁⟩
    · cases heq₁
      rcases setWriter_some h₂ with ⟨rfl, -⟩ | ⟨hne₂, hold₂⟩
      · exact absurd rfl hne
      · exact (hlock key₁ hkey₁ t₂ w₂ key₂ hne₂ hold₂ hkey₂).symm
    · rcases setWriter_some h₂ with ⟨rfl, heq₂⟩ | ⟨hne₂, hold₂⟩
      · cases heq₂
        exact hlock key₂ hkey₂ t₁ w₁ key₁ hne₁ hold₁ hkey₁
      · exact hinv.locks t₁ t₂ w₁ w₂ key₁ key₂ hne hold₁ hold₂ hkey₁ hkey₂
  distinct := by
    intro t₁ t₂ key₁ key₂ n₁ n₂ hne h₁ h₂
    rcases setWriter_some h₁ with ⟨rfl, heq₁⟩ | ⟨hne₁, hold₁⟩
    · cases heq₁
      rcases setWriter_some h₂ with ⟨rfl, -⟩ | ⟨hne₂, hold₂⟩
      · exact absurd rfl hne
      · exact (hdistinct key₁ n₁ rfl t₂ key₂ n₂ hne₂ hold₂).symm
    · rcases setWriter_some h₂ with ⟨rfl, heq₂⟩ | ⟨hne₂, hold₂⟩
      · cases heq₂
        exact hdistinct key₂ n₂ rfl t₁ key₁ n₁ hne₁ hold₁
      · exact hinv.distinct t₁ t₂ key₁ key₂ n₁ n₂ hne hold₁ hold₂
  bulk := hinv.bulk

/-- A writer ends. -/
theorem Inv.dropWriter (hinv : Inv shard m pairs) :
    Inv shard (m.setWriter t none) pairs := by
  have hkept : ∀ t' w, (m.setWriter t none).writers t' = some w →
      m.writers t' = some w := by
    intro t' w hw
    rcases setWriter_some hw with ⟨-, heq⟩ | ⟨-, hold⟩
    · cases heq
    · exact hold
  exact ⟨hinv.stores, hinv.logged, hinv.replayed, hinv.counted,
    fun t' w hw => hinv.writing t' w (hkept t' w hw),
    fun t₁ t₂ w₁ w₂ key₁ key₂ hne h₁ h₂ =>
      hinv.locks t₁ t₂ w₁ w₂ key₁ key₂ hne (hkept t₁ w₁ h₁) (hkept t₂ w₂ h₂),
    fun t₁ t₂ key₁ key₂ n₁ n₂ hne h₁ h₂ =>
      hinv.distinct t₁ t₂ key₁ key₂ n₁ n₂ hne (hkept t₁ _ h₁) (hkept t₂ _ h₂),
    hinv.bulk⟩

/-- The lock of a writer is its own while it moves on. -/
theorem Inv.own_lock (hinv : Inv shard m pairs) {w w' : Resolving} {key : Key}
    (hwriter : m.writers t = some w) (hkey : w.lockedKey = some key)
    (hsame : w'.lockedKey = some key ∨ w'.lockedKey = none) :
    ∀ key, w'.lockedKey = some key → ∀ t' x key', t' ≠ t → m.writers t' = some x →
      x.lockedKey = some key' → shard key' ≠ shard key := by
  intro key₁ hkey₁ t' x key' hne hx hlocked
  rcases hsame with hsame | hsame
  · rw [hsame] at hkey₁
    cases hkey₁
    exact hinv.locks t' t x w key' key hne hx hwriter hlocked hkey
  · rw [hsame] at hkey₁
    cases hkey₁

/-- The counter grows before a new id is put. -/
theorem Inv.grow (hinv : Inv shard m pairs) (hopen : m.bulk = none) :
    Inv shard { m with nextDenseId := m.nextDenseId + 1 } pairs where
  stores := hinv.stores
  logged := hinv.logged
  replayed := hinv.replayed
  counted := fun hstage hbulk pair hmem =>
    Nat.lt_succ_of_lt (hinv.counted hstage hbulk pair hmem)
  writing := by
    intro t w hw
    obtain ⟨hstage, hbulk, hfits⟩ := hinv.writing t w hw
    refine ⟨hstage, hbulk, ?_⟩
    cases w with
    | allocated key n => exact ⟨hfits.1, Nat.lt_succ_of_lt hfits.2.1, hfits.2.2⟩
    | _ => exact hfits
  locks := hinv.locks
  distinct := hinv.distinct
  bulk := by
    intro b hb
    rw [show m.bulk = some b from hb] at hopen
    cases hopen

/-- A pair that its writer allocated is put. -/
theorem Inv.put (hinv : Inv shard m pairs) {key : Key} {n : Nat}
    (hwriter : m.writers t = some (.allocated key n)) :
    Inv shard ({ m with ids := putKey key n m.ids }.setWriter t (some (.resolved key n)))
      ((key, n) :: pairs) := by
  obtain ⟨hstage, hbulk, hreal, hcounted, hkey, hdense⟩ := hinv.writing t _ hwriter
  have hothers : ∀ t' x, t' ≠ t → m.writers t' = some x →
      x.Fits m.nextDenseId ((key, n) :: pairs) := by
    intro t' x hne hx
    obtain ⟨-, -, hfits⟩ := hinv.writing t' x hx
    have hother : ∀ key', x.lockedKey = some key' → key' ≠ key := by
      rintro key' hlocked rfl
      exact hinv.locks t' t x _ key' key' hne hx hwriter hlocked rfl rfl
    cases x with
    | missing key' =>
        intro d hmem
        rcases List.mem_cons.mp hmem with heq | hmem
        · exact hother key' rfl (Prod.mk.inj heq).1
        · exact hfits d hmem
    | allocated key' n' =>
        obtain ⟨hreal', hcounted', hkey', hdense'⟩ := hfits
        refine ⟨hreal', hcounted', fun d hmem => ?_, fun other hmem => ?_⟩
        · rcases List.mem_cons.mp hmem with heq | hmem
          · exact hother key' rfl (Prod.mk.inj heq).1
          · exact hkey' d hmem
        · rcases List.mem_cons.mp hmem with heq | hmem
          · exact hinv.distinct t' t key' key n' n hne hx hwriter (Prod.mk.inj heq).2
          · exact hdense' other hmem
    | resolved => exact List.mem_cons_of_mem _ hfits
    | waiting | locked | refused => trivial
  have hput : Inv shard (({ m with ids := putKey key n m.ids }.setWriter t none))
      ((key, n) :: pairs) := by
    refine ⟨hinv.stores.putKey hreal (.inr ⟨hkey, hdense⟩),
      fun record hmem => List.mem_cons_of_mem _ (hinv.logged record hmem), ?_, ?_, ?_,
      hinv.dropWriter.locks, hinv.dropWriter.distinct, ?_⟩
    · intro records hrecords
      rw [show m.stage = .replaying records from hrecords] at hstage
      cases hstage
    · rintro hopened hmapped pair hmem
      rcases List.mem_cons.mp hmem with rfl | hmem
      · exact hcounted
      · exact hinv.counted hopened hmapped pair hmem
    · intro t' x hx
      rcases setWriter_some hx with ⟨-, heq⟩ | ⟨hne, hold⟩
      · cases heq
      · exact ⟨hstage, hbulk, hothers t' x hne hold⟩
    · intro b hb
      rw [show m.bulk = some b from hb] at hbulk
      cases hbulk
  have hset := hput.setWriter (t := t) ⟨hstage, hbulk⟩
    (show (Resolving.resolved key n).Fits m.nextDenseId ((key, n) :: pairs) from
      List.mem_cons_self)
    (fun _ hlocked => by cases hlocked) (fun _ _ heq => by cases heq)
  unfold Machine.setWriter at hset ⊢
  rw [Function.update_idem] at hset
  exact hset

end Writers

/-- Without writers the rest of the invariant is about the map. -/
theorem Inv.quiet {shard : Key → Nat} {m : Machine} {pairs : List (Key × Nat)}
    (hquiet : ∀ t, m.writers t = none) (hstores : Stores m.ids pairs)
    (hlogged : ∀ record ∈ m.oplog, record ∈ pairs)
    (hreplayed : ∀ records, m.stage = .replaying records →
      ∀ record ∈ records, record ∈ pairs)
    (hcounted : m.stage ≠ .closed → (∀ n, m.bulk ≠ some (.mapped n)) →
      ∀ pair ∈ pairs, pair.2 < m.nextDenseId)
    (hbulk : ∀ b, m.bulk = some b → m.stage = .opened ∧ b.Fits m.nextDenseId pairs) :
    Inv shard m pairs where
  stores := hstores
  logged := hlogged
  replayed := hreplayed
  counted := hcounted
  writing := by
    intro t w hw
    rw [hquiet t] at hw
    cases hw
  locks := by
    intro t t' w w' key key' hne hw
    rw [hquiet t] at hw
    cases hw
  distinct := by
    intro t t' key key' n n' hne hw
    rw [hquiet t] at hw
    cases hw
  bulk := hbulk

/-- Writers wait while the store is not open or a bulk build runs. -/
theorem Inv.no_writers {shard : Key → Nat} {m : Machine} {pairs : List (Key × Nat)}
    (hinv : Inv shard m pairs) (hgate : m.stage ≠ .opened ∨ m.bulk ≠ none) :
    ∀ t, m.writers t = none := by
  intro t
  cases hw : m.writers t with
  | none => rfl
  | some w =>
      obtain ⟨hopened, hbulk, -⟩ := hinv.writing t w hw
      rcases hgate with hgate | hgate
      · exact absurd hopened hgate
      · exact absurd hbulk hgate

/-- The pairs of a bulk build have distinct keys and ids. -/
theorem bulkKeys_fits {ids : List PointId} (hdistinct : ids.Nodup)
    (hint : ids.length < 2 ^ 31) {next : Nat} (hempty : next = 0)
    (pairs : List (Key × Nat)) : (Bulk.checked (bulkKeys ids)).Fits next pairs := by
  have hlength : (bulkKeys ids).length = ids.length := by simp [bulkKeys]
  refine ⟨hempty, ?_, ?_, by rwa [hlength], ?_⟩
  · have hkeys : (bulkKeys ids).map Prod.fst = ids.map encode := by
      simp [bulkKeys, List.zipIdx_map_fst]
    rw [hkeys]
    exact List.Nodup.map (fun _ _ => encode_injective) hdistinct
  · have hdense : (bulkKeys ids).map Prod.snd = List.range' 0 (ids.map encode).length :=
      List.zipIdx_map_snd 0 _
    rw [hdense]
    exact List.nodup_range'
  · intro item hitem
    have hlt := List.snd_lt_of_mem_zipIdx hitem
    rw [hlength]
    simpa using hlt

/-- A missing key gets the next id, or none is left. -/
theorem Inv.allocate {shard : Key → Nat} {m : Machine} {pairs : List (Key × Nat)} {t : Nat}
    (hinv : Inv shard m pairs) {key : Key} (hmissing : m.writers t = some (.missing key)) :
    Inv shard ({ m with nextDenseId := m.nextDenseId + 1 }.setWriter t
      (if m.nextDenseId ≤ kMaxRealId then some (.allocated key m.nextDenseId)
        else some .refused)) pairs := by
  obtain ⟨hopened, hgate, habsent⟩ := hinv.writing t _ hmissing
  have hcounted := hinv.counted (by rw [hopened]; simp) (by rw [hgate]; simp)
  have hgrown := hinv.grow hgate
  split
  · rename_i hreal
    refine hgrown.setWriter ⟨hopened, hgate⟩ ?_
      (hgrown.own_lock hmissing rfl (.inl rfl)) ?_
    · refine ⟨(le_kMaxRealId_iff _).mp hreal, Nat.lt_succ_self _, habsent, ?_⟩
      intro other hmem
      exact Nat.lt_irrefl _ (hcounted _ hmem)
    · rintro _ _ ⟨⟩ t' key' n' - hx
      obtain ⟨-, -, -, hlt, -⟩ := hinv.writing t' _ hx
      exact Nat.ne_of_lt hlt
  · exact hgrown.setWriter ⟨hopened, hgate⟩ trivial (fun _ h => by cases h)
      (fun _ _ h => by cases h)

/-- A bulk build maps its ids while nothing else is mapped. -/
theorem Inv.bulkPut {shard : Key → Nat} {m : Machine} {pairs : List (Key × Nat)}
    (hinv : Inv shard m pairs) {keys : List (Key × Nat)}
    (hbulk : m.bulk = some (.checked keys)) :
    Inv shard { m with ids := putKeys keys m.ids, bulk := some (.mapped keys.length) }
      (keys.reverse ++ pairs) := by
  obtain ⟨hopened, hempty, hkeys, hdense, hint, hbound⟩ := hinv.bulk _ hbulk
  -- The counter is 0, so nothing is mapped yet.
  have hcounted := hinv.counted (by rw [hopened]; simp) (by rw [hbulk]; simp)
  have hnone : ∀ pair, pair ∉ pairs := by
    intro pair hmem
    have hlt := hcounted pair hmem
    rw [hempty] at hlt
    exact Nat.not_lt_zero _ hlt
  have hstores := hinv.stores.putKeys keys
    (fun item hitem => (hbound item hitem).trans (hint.trans (by decide))) hkeys hdense
    fun item _ => ⟨fun d => hnone _, fun key => hnone _⟩
  refine .quiet (hinv.no_writers (.inr (by rw [hbulk]; simp)))
    hstores (fun record h => List.mem_append_right _ (hinv.logged record h)) ?_ ?_ ?_
  · intro records hrecords
    rw [show m.stage = .replaying records from hrecords] at hopened
    cases hopened
  · intro _ hmapped
    exact absurd rfl (hmapped keys.length)
  · rintro _ ⟨⟩
    refine ⟨hopened, fun pair hmem => ?_⟩
    rcases List.mem_append.mp hmem with hnew | hold
    · exact hbound pair (List.mem_reverse.mp hnew)
    · exact absurd hold (hnone pair)

/-- A store that opens counts on from the largest id that is mapped. -/
theorem Inv.opening {shard : Key → Nat} {m : Machine} {pairs : List (Key × Nat)}
    (hinv : Inv shard m pairs) {found : Option Nat} {records : List (Key × Nat)}
    (hclosed : m.stage = .closed) (hmax : maxMappedId m.ids = some found)
    (hsub : records.Sublist m.oplog) :
    Inv shard { m with nextDenseId := found.elim 0 (· + 1), stage := .replaying records }
      pairs := by
  have hnotOpened : m.stage ≠ .opened := by rw [hclosed]; simp
  obtain ⟨max, hsome, hnone, hbound⟩ := hinv.stores.maxMappedId
  obtain rfl : max = found := Option.some.inj (hsome.symm.trans hmax)
  refine .quiet (hinv.no_writers (.inl hnotOpened)) hinv.stores hinv.logged ?_ ?_ ?_
  · rintro _ ⟨⟩ record hrecord
    exact hinv.logged record (hsub.subset hrecord)
  · intro _ _ pair hmem
    cases max with
    | none =>
        rw [hnone rfl] at hmem
        cases hmem
    | some id => exact Nat.lt_succ_of_le ((hbound id rfl).2 pair hmem)
  · intro b hb
    exact absurd (hinv.bulk b hb).1 hnotOpened

/-- A record that is replayed was put when it was logged. -/
theorem Inv.replay {shard : Key → Nat} {m : Machine} {pairs : List (Key × Nat)}
    (hinv : Inv shard m pairs) {key : Key} {d : Nat} {records : List (Key × Nat)}
    (hreplaying : m.stage = .replaying ((key, d) :: records)) :
    Inv shard { m with
      ids := putKey key d m.ids
      nextDenseId := observeDenseId d m.nextDenseId
      stage := .replaying records } ((key, d) :: pairs) := by
  have hnotOpened : m.stage ≠ .opened := by rw [hreplaying]; simp
  have hrecords := hinv.replayed _ hreplaying
  have hmem := hrecords (key, d) List.mem_cons_self
  have hnoBulk : ∀ b, m.bulk ≠ some b := fun b hb =>
    hnotOpened (hinv.bulk b hb).1
  refine .quiet (hinv.no_writers (.inl hnotOpened))
    (hinv.stores.putKey (hinv.stores.real key d hmem) (.inl hmem))
    (fun r h => List.mem_cons_of_mem _ (hinv.logged r h)) ?_ ?_
    (fun b hb => absurd hb (hnoBulk b))
  · rintro _ ⟨⟩ record hrecord
    exact List.mem_cons_of_mem _ (hrecords record (List.mem_cons_of_mem _ hrecord))
  · intro _ _ pair hpair
    have hcounted := hinv.counted (by rw [hreplaying]; simp) fun n => hnoBulk _
    have hlt : pair.2 < m.nextDenseId := by
      rcases List.mem_cons.mp hpair with rfl | hold
      · exact hcounted _ hmem
      · exact hcounted _ hold
    change pair.2 < observeDenseId d m.nextDenseId
    unfold observeDenseId
    split <;> omega

/-- A step keeps the invariant and every pair. -/
theorem Inv.step {shard : Key → Nat} {m m' : Machine} {pairs : List (Key × Nat)}
    (hinv : Inv shard m pairs) (hstep : Step shard m m') :
    ∃ pairs', Inv shard m' pairs' ∧ ∀ pair ∈ pairs, pair ∈ pairs' := by
  cases hstep with
  | begins t id hopened hgate hfree =>
      exact ⟨pairs, hinv.setWriter ⟨hopened, hgate⟩ trivial (fun _ h => by cases h)
        (fun _ _ h => by cases h), fun _ h => h⟩
  | locks t key hwaiting hlock =>
      obtain ⟨hopened, hgate, -⟩ := hinv.writing t _ hwaiting
      refine ⟨pairs, hinv.setWriter ⟨hopened, hgate⟩ trivial ?_ (fun _ _ h => by cases h),
        fun _ h => h⟩
      rintro _ ⟨⟩ t' x key' - hx hlocked
      exact hlock t' x key' hx hlocked
  | finds t key d hlocked hfound =>
      obtain ⟨hopened, hgate, -⟩ := hinv.writing t _ hlocked
      exact ⟨pairs, hinv.setWriter ⟨hopened, hgate⟩ (hinv.stores.lookupKey_iff.mp hfound)
        (fun _ h => by cases h) (fun _ _ h => by cases h), fun _ h => h⟩
  | misses t key hlocked hfound =>
      obtain ⟨hopened, hgate, -⟩ := hinv.writing t _ hlocked
      refine ⟨pairs, hinv.setWriter ⟨hopened, hgate⟩ ?_
        (hinv.own_lock hlocked rfl (.inl rfl)) (fun _ _ h => by cases h), fun _ h => h⟩
      intro d hmem
      rw [hinv.stores.forward key d hmem] at hfound
      cases hfound
  | fails t w hwriter =>
      obtain ⟨hopened, hgate, -⟩ := hinv.writing t _ hwriter
      exact ⟨pairs, hinv.setWriter ⟨hopened, hgate⟩ trivial (fun _ h => by cases h)
        (fun _ _ h => by cases h), fun _ h => h⟩
  | allocates t key hmissing => exact ⟨pairs, hinv.allocate hmissing, fun _ h => h⟩
  | puts t key n hallocated =>
      exact ⟨(key, n) :: pairs, hinv.put hallocated, fun _ h => List.mem_cons_of_mem _ h⟩
  | logs t key d hresolved =>
      obtain ⟨-, -, hmem⟩ := hinv.writing t _ hresolved
      refine ⟨pairs, { hinv with logged := ?_ }, fun _ h => h⟩
      intro record hrecord
      rcases List.mem_append.mp hrecord with hold | hnew
      · exact hinv.logged record hold
      · rw [List.mem_singleton.mp hnew]
        exact hmem
  | ends t w hwriter hunlocked => exact ⟨pairs, hinv.dropWriter, fun _ h => h⟩
  | bulkBegins ids hopened hgate hwriters hempty hdistinct hint =>
      refine ⟨pairs, .quiet hwriters hinv.stores hinv.logged hinv.replayed ?_ ?_,
        fun _ h => h⟩
      · intro hstage _
        exact hinv.counted hstage (by rw [hgate]; simp)
      · rintro _ ⟨⟩
        exact ⟨hopened, bulkKeys_fits hdistinct hint hempty pairs⟩
  | bulkFails keys hbulk =>
      refine ⟨pairs, .quiet (hinv.no_writers (.inr (by rw [hbulk]; simp))) hinv.stores
        hinv.logged hinv.replayed ?_ (fun _ h => by cases h), fun _ h => h⟩
      intro hstage _
      exact hinv.counted hstage (by rw [hbulk]; simp)
  | bulkPuts keys hbulk =>
      exact ⟨keys.reverse ++ pairs, hinv.bulkPut hbulk, fun _ h => List.mem_append_right _ h⟩
  | bulkCounts n hbulk =>
      obtain ⟨hopened, hbound⟩ := hinv.bulk _ hbulk
      exact ⟨pairs, .quiet (hinv.no_writers (.inr (by rw [hbulk]; simp))) hinv.stores
        hinv.logged hinv.replayed (fun _ _ => hbound) (fun _ h => by cases h),
        fun _ h => h⟩
  | truncates oplog hsub =>
      exact ⟨pairs, { hinv with logged := fun r hr => hinv.logged r (hsub.subset hr) },
        fun _ h => h⟩
  | kills =>
      exact ⟨pairs, .quiet (fun _ => rfl) hinv.stores hinv.logged (fun _ h => by cases h)
        (fun h => absurd rfl h) (fun _ h => by cases h), fun _ h => h⟩
  | opens found records hclosed hmax hsub =>
      exact ⟨pairs, hinv.opening hclosed hmax hsub, fun _ h => h⟩
  | replays key d records hreplaying =>
      exact ⟨(key, d) :: pairs, hinv.replay hreplaying, fun _ h => List.mem_cons_of_mem _ h⟩
  | starts hreplayed =>
      have hnotOpened : m.stage ≠ .opened := by rw [hreplayed]; simp
      refine ⟨pairs, .quiet (hinv.no_writers (.inl hnotOpened)) hinv.stores hinv.logged
        (fun _ h => by cases h) ?_ (fun b hb => absurd (hinv.bulk b hb).1 hnotOpened),
        fun _ h => h⟩
      intro _ hmapped
      exact hinv.counted (by rw [hreplayed]; simp) hmapped

theorem Inv.run {shard : Key → Nat} {m m' : Machine} {pairs : List (Key × Nat)}
    (hinv : Inv shard m pairs) (hrun : Relation.ReflTransGen (Step shard) m m') :
    ∃ pairs', Inv shard m' pairs' ∧ ∀ pair ∈ pairs, pair ∈ pairs' := by
  induction hrun with
  | refl => exact ⟨pairs, hinv, fun _ h => h⟩
  | tail _ hstep ih =>
      obtain ⟨pairs', hinv', hkept⟩ := ih
      obtain ⟨pairs'', hinv'', hkept'⟩ := hinv'.step hstep
      exact ⟨pairs'', hinv'', fun pair h => hkept' pair (hkept pair h)⟩

/-- What is asked of the map of a keyed store. -/
structure Machine.Integrity (shard : Key → Nat) (m : Machine) : Prop where
  inverse : ∀ key d, d < 2 ^ 64 →
    (lookupKey m.ids key = .found d ↔ reverseLookup m.ids d = some key)
  readable : ∀ key, lookupKey m.ids key ≠ .corruption
  real : ∀ key d, lookupKey m.ids key = .found d → d ≤ kMaxRealId
  injective : ∀ id id' d, lookupKey m.ids (encode id) = .found d →
    lookupKey m.ids (encode id') = .found d → id = id'
  kept : ∀ m', Relation.ReflTransGen (Step shard) m m' → ∀ key d,
    lookupKey m.ids key = .found d → lookupKey m'.ids key = .found d
  counter : ∀ t key, m.writers t = some (.missing key) → ∀ mapped d,
    lookupKey m.ids mapped = .found d → d < m.nextDenseId

theorem Inv.integrity {shard : Key → Nat} {m : Machine} {pairs : List (Key × Nat)}
    (hinv : Inv shard m pairs) : m.Integrity shard where
  inverse := by
    intro key d hd
    rw [hinv.stores.lookupKey_iff, hinv.stores.reverse key d hd]
  readable := by
    intro key hdamaged
    by_cases hmapped : ∃ d, (key, d) ∈ pairs
    · obtain ⟨d, hmem⟩ := hmapped
      rw [hinv.stores.forward key d hmem] at hdamaged
      cases hdamaged
    · rw [hinv.stores.absent key fun d hmem => hmapped ⟨d, hmem⟩] at hdamaged
      cases hdamaged
  real := by
    intro key d hfound
    exact (le_kMaxRealId_iff d).mpr
      (hinv.stores.real key d (hinv.stores.lookupKey_iff.mp hfound))
  injective := by
    intro id id' d hfound hfound'
    exact encode_injective (hinv.stores.key_unique (hinv.stores.lookupKey_iff.mp hfound)
      (hinv.stores.lookupKey_iff.mp hfound'))
  kept := by
    intro m' hrun key d hfound
    obtain ⟨pairs', hinv', hkept⟩ := hinv.run hrun
    exact hinv'.stores.lookupKey_iff.mpr
      (hkept _ (hinv.stores.lookupKey_iff.mp hfound))
  counter := by
    intro t key hmissing mapped d hfound
    obtain ⟨hopened, hgate, -⟩ := hinv.writing t _ hmissing
    exact hinv.counted (by rw [hopened]; simp) (by rw [hgate]; simp) (mapped, d)
      (hinv.stores.lookupKey_iff.mp hfound)

/-- The id map keeps its integrity over writers, bulk builds, kills and replays. -/
theorem Reachable.keyMap_integrity {shard : Key → Nat} {m : Machine} (hm : Reachable shard m) :
    m.Integrity shard := by
  obtain ⟨pairs, hinv, -⟩ := (inv_fresh shard).run hm
  exact hinv.integrity

/-- A store that was just opened. -/
def justOpened : Machine := ⟨[], [], 0, fun _ => none, none, .opened⟩

/-- The key 7, written first. -/
def seven : Key := encode (.int 7)

/-- Its writer has allocated the dense id 0. -/
def sevenAllocated : Machine :=
  { ((justOpened.setWriter 0 (some (.waiting seven))).setWriter 0
    (some (.locked seven))).setWriter 0 (some (.missing seven)) with
      nextDenseId := 1 }.setWriter 0 (some (.allocated seven 0))

def sevenPut : Machine :=
  { sevenAllocated with ids := putKey seven 0 [] }.setWriter 0 (some (.resolved seven 0))

theorem reachable_sevenPut : Reachable (fun _ => 0) sevenPut := by
  have hopened : Reachable (fun _ => 0) justOpened :=
    (Relation.ReflTransGen.single (.opens none [] rfl rfl (List.Sublist.refl _))).tail
      (.starts rfl)
  have hlocked := (hopened.tail (.begins 0 (.int 7) rfl rfl rfl)).tail
    (.locks 0 seven rfl ?_)
  · have hmissing := hlocked.tail (.misses 0 seven rfl rfl)
    have hallocated : Reachable (fun _ => 0) sevenAllocated :=
      hmissing.tail (.allocates 0 seven rfl)
    exact hallocated.tail (.puts 0 seven 0 rfl)
  · intro t w held hw hheld
    rcases setWriter_some hw with ⟨-, heq⟩ | ⟨-, hnone⟩
    · cases heq
      cases hheld
    · cases hnone

theorem sevenPut_integrity :
    lookupKey sevenPut.ids seven = .found 0 ∧ sevenPut.Integrity fun _ => 0 :=
  ⟨by decide, reachable_sevenPut.keyMap_integrity⟩

end AsterVec.KeyMap
