import AsterVec.DenseThreads

/-!
A `Get` takes no lock and resolves its id twice.  As long as the second time does not
fall back to the direct version, it returns a vector that was current during the call.
-/

namespace AsterVec.Dense

open AsterVec.IdTypes
open AsterVec.Programs

variable {V Row : Type}

/-- The step changes neither the versions of the id nor their mapping. -/
def Slice.SameVersions (s s' : Slice V Row) : Prop :=
  s'.mapping = s.mapping ∧ s'.reverse = s.reverse ∧ s'.tombstoned = s.tombstoned ∧
    s'.vectors = s.vectors ∧ ∀ i, s.owned i = true → s'.owned i = true

/-- What a write does to the versions of its id. -/
inductive Slice.Moves (r : Nat) (s : Slice V Row) : Slice V Row → Prop where
  | same {s' : Slice V Row} (hsame : s.SameVersions s') : Moves r s s'
  | recorded (i : Nat) (hallowed : Slice.Allowed r (.recordUpdateMapping r i) s) :
      Moves r s (s.record r i)
  | forgot (hallowed : Slice.Allowed r (.forgetUpdateMapping r) s) : Moves r s s.forget
  | tombstoned (i : Nat) (hallowed : Slice.Allowed r (.tombstone i) s) :
      Moves r s (s.tombstone i)
  | stored (i : Nat) (vector : V) (hallowed : Slice.Allowed r (.storeVector i vector) s) :
      Moves r s (s.store i vector)

theorem Slice.sameVersions_of_allocates {s s' : Slice V Row} {n : Nat}
    (halloc : s.Allocates n s') : s.SameVersions s' := by
  obtain ⟨-, -, rfl⟩ := halloc
  refine ⟨rfl, rfl, rfl, rfl, fun i hi => ?_⟩
  change Function.update s.owned n true i = true
  rw [Function.update_apply, hi, ite_self]

theorem Slice.moves_of_step {r : Nat} {s s' : Slice V Row} {c : Call V Row}
    {reply : Reply c} (hallowed : Slice.Allowed r c s)
    (hstep : Slice.Step r c s reply s') : Slice.Moves r s s' := by
  cases c with
  | resolveInternal | isTombstoned | vectorExists | getRow =>
      obtain ⟨-, rfl⟩ := hstep
      exact .same ⟨rfl, rfl, rfl, rfl, fun _ hi => hi⟩
  | resolveReal | readVector | putRows => exact hallowed.elim
  | allocateUpdateId => exact .same (Slice.sameVersions_of_allocates hstep)
  | recordUpdateMapping x i =>
      obtain rfl : x = r := hallowed.1
      cases hstep
      exact .recorded i hallowed
  | forgetUpdateMapping x =>
      obtain rfl : x = r := hallowed.1
      cases hstep
      exact .forgot hallowed
  | tombstone i =>
      cases hstep
      exact .tombstoned i hallowed
  | storeVector i vector =>
      cases hstep
      exact .stored i vector hallowed
  | putRow | deleteRow | loadEntryPoint | casEntryPoint | promote | linkUpper | getEdges
  | addEdges | deleteEdges =>
      cases hstep
      exact .same ⟨rfl, rfl, rfl, rfl, fun _ hi => hi⟩

/-- A step of a writer moves the versions of an id. -/
theorem Machine.Sound.moves {m m' : Machine V Row} (hsound : m.Sound)
    (hstep : Machine.WriterStep m m') {r : Nat} (hr : r < 2 ^ 63) :
    Slice.Moves r (m.slice r) (m'.slice r) := by
  rcases hsound.slice_step hstep hr with hsame | ⟨c, reply, hallowed, htaken⟩
  · rw [hsame]
    exact .same ⟨rfl, rfl, rfl, rfl, fun _ hi => hi⟩
  · exact Slice.moves_of_step hallowed htaken

/-- The current vector of the caller id. -/
def Slice.vector? (s : Slice V Row) (r : Nat) : Option V :=
  if s.tombstoned (s.current r) then none else s.vectors (s.current r)

/-- A `Get` among writers: the ids it resolved so far, and the vectors that were
current since it was called. -/
structure Getting (V Row : Type) where
  machine : Machine V Row
  resolved : List Nat
  seen : List V

namespace Getting

def after (r : Nat) (g : Getting V Row) (m : Machine V Row) : Getting V Row :=
  ⟨m, g.resolved, ((m.slice r).vector? r).toList ++ g.seen⟩

/-- The ids resolved once the call has its reply. -/
def noted : (c : Call V Row) → Reply c → List Nat → List Nat
  | .resolveInternal _, i, resolved => (show Nat from i) :: resolved
  | _, _, resolved => resolved

def reply (c : Call V Row) (g : Getting V Row) : Reply c := (exec c g.machine.st).1

/-- A `Get` changes nothing. -/
def next (c : Call V Row) (g : Getting V Row) : Getting V Row :=
  ⟨g.machine, noted c (g.reply c) g.resolved, g.seen⟩

/-- The runs of one `Get` of `r` among any writers; `Condition` is asked of every
call it makes. -/
inductive Runs (Condition : Call V Row → Getting V Row → Bool) (r : Nat) :
    Getting V Row → Prog V Row (GetResult V) → Prop where
  | called {m : Machine V Row} (hsound : m.Sound) :
      Runs Condition r ⟨m, [], ((m.slice r).vector? r).toList⟩ (getDense r)
  | wrote {g : Getting V Row} {p : Prog V Row (GetResult V)} {m : Machine V Row}
      (hruns : Runs Condition r g p) (hstep : Machine.WriterStep g.machine m) :
      Runs Condition r (g.after r m) p
  | got {g : Getting V Row} {c : Call V Row} {follow : Reply c → Prog V Row (GetResult V)}
      (hruns : Runs Condition r g (.call c follow)) (hmeets : Condition c g = true) :
      Runs Condition r (g.next c) (follow (g.reply c))

/-- The second resolution does not fall back to the direct version, unless the first
one gave it, and the version read has a vector. -/
def staysMapped (r : Nat) : Call V Row → Getting V Row → Bool
  | .resolveInternal _, g =>
      g.resolved.all fun i => g.machine.st.tables.resolveInternal r != r || i == r
  | .readVector i, g => (g.machine.st.vectors i).isSome
  | _, _ => true

end Getting

/-! What the call knows of a version -/

/-- The version was current, or it still waits for its vector. -/
def Slice.Seen (s : Slice V Row) (r i : Nat) (seen : List V) : Prop :=
  (∃ vector, s.vectors i = some vector ∧ vector ∈ seen) ∨
    s.vectors i = none ∧ s.current r = i

/-- The current version is the one resolved, the direct one, or new in the call. -/
def Slice.Follows (s : Slice V Row) (r i : Nat) (seen : List V) : Prop :=
  s.current r = i ∨ s.current r = r ∨
    ∀ vector, s.vectors (s.current r) = some vector → vector ∈ seen

section Moves

variable {r i : Nat} {s s' : Slice V Row} {seen : List V}

theorem Slice.Seen.moves (hseen : s.Seen r i seen) (hinv : s.Inv r)
    (hmoves : Slice.Moves r s s') :
    s'.Seen r i ((s'.vector? r).toList ++ seen) := by
  have hkept : ∀ {seen' : List V} {vector}, vector ∈ seen → vector ∈ seen' ++ seen :=
    fun hmem => List.mem_append_right _ hmem
  cases hmoves with
  | same hsame =>
      obtain ⟨hmap, -, -, hvec, -⟩ := hsame
      unfold Slice.Seen Slice.current
      rw [hvec, hmap]
      exact hseen.imp_left fun ⟨vector, hv, hmem⟩ => ⟨vector, hv, hkept hmem⟩
  | recorded j hallowed =>
      obtain ⟨-, -, -, -, hlocated, -⟩ := hallowed
      rcases hseen with ⟨vector, hv, hmem⟩ | ⟨hnone, hcurrent⟩
      · exact .inl ⟨vector, hv, hkept hmem⟩
      · rw [hcurrent, hnone] at hlocated
        cases hlocated
  | forgot hallowed =>
      rcases hseen with ⟨vector, hv, hmem⟩ | ⟨hnone, hcurrent⟩
      · exact .inl ⟨vector, hv, hkept hmem⟩
      · cases hmap : s.mapping with
        | none =>
            refine .inr ⟨hnone, ?_⟩
            rw [← hcurrent]
            unfold Slice.current
            rw [hmap]
            rfl
        | some m =>
            obtain ⟨hdead, -⟩ := hallowed.2 m hmap
            have hm : m = i := by
              rw [← hcurrent]
              unfold Slice.current
              rw [hmap]
              rfl
            have hlocated := hinv.located m hdead
            rw [hm, hnone] at hlocated
            cases hlocated
  | tombstoned j hallowed =>
      exact hseen.imp (fun ⟨vector, hv, hmem⟩ => ⟨vector, hv, hkept hmem⟩) id
  | stored j vector hallowed =>
      obtain ⟨-, hempty, hlive⟩ := hallowed
      rcases hseen with ⟨old, hv, hmem⟩ | ⟨hnone, hcurrent⟩
      · refine .inl ⟨old, ?_, hkept hmem⟩
        have hne : i ≠ j := by
          rintro rfl
          rw [hempty] at hv
          cases hv
        exact (Function.update_of_ne hne _ _).trans hv
      · rcases eq_or_ne i j with rfl | hne
        · -- The version becomes current now.
          have hstored : (s.store i vector).vectors i = some vector :=
            Function.update_self _ _ _
          refine .inl ⟨vector, hstored, List.mem_append_left _ ?_⟩
          unfold Slice.vector?
          rw [show (s.store i vector).current r = i from hcurrent, hstored,
            show (s.store i vector).tombstoned i = false from hlive]
          simp
        · exact .inr ⟨(Function.update_of_ne hne _ _).trans hnone, hcurrent⟩

theorem Slice.Follows.moves (hfollows : s.Follows r i seen)
    (hmoves : Slice.Moves r s s') :
    s'.Follows r i ((s'.vector? r).toList ++ seen) := by
  have hkept : ∀ {seen' : List V} {vector}, vector ∈ seen → vector ∈ seen' ++ seen :=
    fun hmem => List.mem_append_right _ hmem
  cases hmoves with
  | same hsame =>
      obtain ⟨hmap, -, -, hvec, -⟩ := hsame
      unfold Slice.Follows Slice.current
      rw [hvec, hmap]
      exact hfollows.imp_right fun h => h.imp_right fun h vector hv => hkept (h vector hv)
  | recorded j hallowed =>
      obtain ⟨-, -, -, hlive, -⟩ := hallowed
      refine .inr (.inr fun vector hv => List.mem_append_left _ ?_)
      unfold Slice.vector?
      rw [show (s.record r j).tombstoned ((s.record r j).current r) = false from hlive, hv]
      simp
  | forgot hallowed => exact .inr (.inl rfl)
  | tombstoned j hallowed =>
      exact hfollows.imp_right fun h => h.imp_right fun h vector hv => hkept (h vector hv)
  | stored j vector hallowed =>
      obtain ⟨-, -, hlive⟩ := hallowed
      refine hfollows.imp_right fun h => h.imp_right fun h found hfound => ?_
      rcases eq_or_ne (s.current r) j with heq | hne
      · refine List.mem_append_left _ ?_
        unfold Slice.vector?
        rw [show (s.store j vector).tombstoned ((s.store j vector).current r) = false from
          heq ▸ hlive, hfound]
        simp
      · exact hkept (h found ((Function.update_of_ne hne _ _).symm.trans hfound))

theorem Slice.Moves.owned (hmoves : Slice.Moves r s s') (howned : s.owned i = true) :
    s'.owned i = true := by
  cases hmoves with
  | same hsame => exact hsame.2.2.2.2 i howned
  | recorded | forgot | tombstoned | stored => exact howned

theorem Slice.Moves.tombstoned_of (hmoves : Slice.Moves r s s')
    (hdead : s.tombstoned i = true) : s'.tombstoned i = true := by
  cases hmoves with
  | same hsame =>
      rw [hsame.2.2.1]
      exact hdead
  | recorded | forgot | stored => exact hdead
  | tombstoned j =>
      change Function.update s.tombstoned j true i = true
      rw [Function.update_apply, hdead, ite_self]

/-- The vector of a version never changes. -/
theorem Slice.Moves.vectors_of (hmoves : Slice.Moves r s s') {vector : V}
    (hvector : s.vectors i = some vector) : s'.vectors i = some vector := by
  cases hmoves with
  | same hsame =>
      rw [hsame.2.2.2.1]
      exact hvector
  | recorded | forgot | tombstoned => exact hvector
  | stored j other hallowed =>
      have hne : i ≠ j := by
        rintro rfl
        rw [hallowed.2.1] at hvector
        cases hvector
      exact (Function.update_of_ne hne _ _).trans hvector

end Moves

/-! The calls of a `Get` -/

namespace Getting

variable {r : Nat}

def Env (r : Nat) (g g' : Getting V Row) : Prop :=
  ∃ m, Machine.WriterStep g.machine m ∧ g' = g.after r m

def Step (Condition : Call V Row → Getting V Row → Bool) (c : Call V Row)
    (g : Getting V Row) (reply : Reply c) (g' : Getting V Row) : Prop :=
  Condition c g = true ∧ reply = g.reply c ∧ g' = g.next c

/-- What the call knows: the machine is sound, it resolved these ids, and `Fact`
holds of the slice of `r` and the vectors seen. -/
def Knows (r : Nat) (resolved : List Nat) (Fact : Slice V Row → List V → Prop)
    (g : Getting V Row) : Prop :=
  g.machine.Sound ∧ g.resolved = resolved ∧ Fact (g.machine.slice r) g.seen

theorem stable_knows (hr : r < 2 ^ 63) (resolved : List Nat)
    {Fact : Slice V Row → List V → Prop}
    (hfact : ∀ s s' seen, Fact s seen → s.Inv r → Slice.Moves r s s' →
      Fact s' ((s'.vector? r).toList ++ seen)) :
    Stable (Env r) (Knows r resolved Fact) := by
  rintro g _ ⟨hsound, hresolved, hknown⟩ ⟨m, hstep, rfl⟩
  exact ⟨hsound.step hstep, hresolved,
    hfact _ _ _ hknown (hsound.inv r hr) (hsound.moves hstep hr)⟩

/-- The replies to calls about an owned id come from the slice. -/
theorem reply_resolveInternal {g : Getting V Row} (hsound : g.machine.Sound) (r : Nat) :
    g.reply (.resolveInternal r) = (g.machine.slice r).current r :=
  IdTables.resolveInternal_eq hsound.good.covers r

theorem reply_isTombstoned {g : Getting V Row} {i : Nat}
    (howned : (g.machine.slice r).owned i = true) :
    g.reply (.isTombstoned i) = (g.machine.slice r).tombstoned i := by
  change g.machine.st.tables.isTombstoned i = (owns g.machine.owner r i && _)
  rw [show owns g.machine.owner r i = true from howned]
  rfl

theorem vectors_of_owned {m : Machine V Row} {i : Nat}
    (howned : (m.slice r).owned i = true) : (m.slice r).vectors i = m.st.vectors i :=
  if_pos howned

theorem secure_notFound (g : Getting V Row) :
    Secure (Env r) (Step (staysMapped r)) (pure .notFound : Prog V Row (GetResult V))
      (fun result g => result = .notFound ∨ ∃ vector, result = .ok vector ∧ vector ∈ g.seen)
      g :=
  Secure.done (fun _ => True) (fun _ _ _ _ => trivial) trivial fun _ _ => .inl rfl

/-- The second half of a `Get`, once its id was found alive at version `i`. -/
theorem secure_read (hr : r < 2 ^ 63) {i : Nat} {g : Getting V Row}
    (hknows : Knows r [i] (fun s seen =>
      (∃ vector, s.vectors i = some vector ∧ vector ∈ seen) ∧ s.Follows r i seen) g) :
    Secure (Env r) (Step (staysMapped r))
      (do let i ← Prog.resolveInternal r
          let vector ← Prog.readVector i
          pure (vector.elim .ioError .ok) : Prog V Row (GetResult V))
      (fun result g => result = .notFound ∨ ∃ vector, result = .ok vector ∧ vector ∈ g.seen)
      g := by
  apply Secure.perform (Knows r [i] fun s seen =>
    (∃ vector, s.vectors i = some vector ∧ vector ∈ seen) ∧ s.Follows r i seen)
  · apply stable_knows hr
    rintro s s' seen ⟨⟨vector, hvector, hmem⟩, hfollows⟩ hinv hmoves
    exact ⟨⟨vector, hmoves.vectors_of hvector, List.mem_append_right _ hmem⟩,
      hfollows.moves hmoves⟩
  · exact hknows
  clear! g
  rintro g _ _ ⟨hsound, hresolved, ⟨vector, hvector, hmem⟩, hfollows⟩ ⟨hmeets, rfl, rfl⟩
  have hreply := reply_resolveInternal hsound r
  have hinv := hsound.inv r hr
  have hdirect : (g.machine.slice r).current r = r → i = r := by
    intro hback
    have hall : (g.resolved.all fun i =>
        g.machine.st.tables.resolveInternal r != r || i == r) = true := hmeets
    have hresolves : g.machine.st.tables.resolveInternal r = r := hreply.trans hback
    rw [hresolved, hresolves] at hall
    simpa using hall
  generalize hj : (g.machine.slice r).current r = j at hreply hdirect
  have howned : (g.machine.slice r).owned j = true := hj ▸ hinv.owned_current
  have hseen : (g.machine.slice r).Seen r j g.seen := by
    cases hvec : (g.machine.slice r).vectors j with
    | none => exact .inr ⟨hvec, hj⟩
    | some other =>
        refine .inl ⟨other, hvec, ?_⟩
        have hsame : i = j → other ∈ g.seen := by
          rintro rfl
          rw [hvector] at hvec
          cases hvec
          exact hmem
        rcases hfollows with hji | hjr | hnew
        · exact hsame (hji.symm.trans hj)
        · exact hsame ((hdirect (hj.symm.trans hjr)).trans (hjr.symm.trans hj))
        · exact hnew other (by rw [hj]; exact hvec)
  rw [hreply]
  apply Secure.perform (fun g => Knows r g.resolved (fun s seen => s.owned j = true ∧
    s.Seen r j seen) g)
  · rintro g g' ⟨hsound, -, hknown⟩ henv
    exact stable_knows hr g'.resolved (fun s s' seen h hinv hmoves =>
      ⟨hmoves.owned h.1, h.2.moves hinv hmoves⟩) g g' ⟨hsound, by
        obtain ⟨m, -, rfl⟩ := henv
        rfl, hknown⟩ henv
  · exact ⟨hsound, rfl, howned, hseen⟩
  clear! g
  rintro g _ _ ⟨hsound, -, howned, hseen⟩ ⟨hmeets, rfl, rfl⟩
  -- The version has a vector, so it was seen.
  rcases hseen with ⟨found, hfound, hmem⟩ | ⟨hnone, -⟩
  · rw [vectors_of_owned howned] at hfound
    rw [show g.reply (.readVector j) = some found from hfound]
    refine Secure.done (fun g => found ∈ g.seen) ?_ hmem fun _ hmem => .inr ⟨found, rfl, hmem⟩
    rintro g _ hmem ⟨m, -, rfl⟩
    exact List.mem_append_right _ hmem
  · rw [vectors_of_owned howned] at hnone
    have hsome : (g.machine.st.vectors j).isSome = true := hmeets
    rw [hnone] at hsome
    cases hsome

/-- A `Get` that meets its condition ends in the right way. -/
theorem secure_getDense (hr : r < 2 ^ 63) {m : Machine V Row} (hsound : m.Sound) :
    Secure (Env r) (Step (staysMapped r)) (getDense r)
      (fun result g => result = .notFound ∨ ∃ vector, result = .ok vector ∧ vector ∈ g.seen)
      ⟨m, [], ((m.slice r).vector? r).toList⟩ := by
  unfold getDense
  apply Secure.bind
  unfold isAlive
  -- First resolution: the version resolved is current now or waits for its vector.
  apply Secure.perform (Knows r [] fun s seen =>
    ∀ vector, s.vector? r = some vector → vector ∈ seen)
  · apply stable_knows hr
    exact fun s s' seen _ _ _ vector hv => List.mem_append_left _ (by simp [hv])
  · exact ⟨hsound, rfl, fun vector hv => by simp [hv]⟩
  rintro g _ _ ⟨hsound, hresolved, hcurrent⟩ ⟨-, rfl, rfl⟩
  have hreply := reply_resolveInternal hsound r
  have hinv := hsound.inv r hr
  generalize hi : (g.machine.slice r).current r = i at hreply
  have howned : (g.machine.slice r).owned i = true := hi ▸ hinv.owned_current
  rw [hreply]
  have hfollows : (g.machine.slice r).Follows r i g.seen := .inl hi
  have hseen : (g.machine.slice r).tombstoned i = true ∨
      (g.machine.slice r).Seen r i g.seen := by
    cases hdead : (g.machine.slice r).tombstoned i with
    | true => exact .inl rfl
    | false =>
        refine .inr ?_
        cases hvec : (g.machine.slice r).vectors i with
        | none => exact .inr ⟨hvec, hi⟩
        | some vector =>
            refine .inl ⟨vector, hvec, hcurrent vector ?_⟩
            unfold Slice.vector?
            rw [hi, hdead, hvec]
            rfl
  -- A version that is not dead was current, or will be once it has its vector.
  apply Secure.perform (Knows r [i] fun s seen => s.owned i = true ∧
    (s.tombstoned i = true ∨ s.Seen r i seen) ∧ s.Follows r i seen)
  · apply stable_knows hr
    rintro s s' seen ⟨howned, hseen, hfollows⟩ hinv hmoves
    exact ⟨hmoves.owned howned, hseen.imp hmoves.tombstoned_of fun h => h.moves hinv hmoves,
      hfollows.moves hmoves⟩
  · refine ⟨hsound, ?_, howned, hseen, hfollows⟩
    change (g.reply (.resolveInternal r) : Nat) :: g.resolved = [i]
    rw [hreply, hresolved]
    rfl
  clear! g
  rintro g _ _ ⟨hsound, hresolved, howned, hseen, hfollows⟩ ⟨-, rfl, rfl⟩
  rw [reply_isTombstoned howned]
  cases hdead : (g.machine.slice r).tombstoned i with
  | true =>
      exact Secure.done (fun _ => True) (fun _ _ _ _ => trivial) trivial
        fun g _ => secure_notFound g
  | false =>
      -- The location check comes after the version got its vector.
      refine ⟨Knows r [i] fun s seen => s.owned i = true ∧ s.Seen r i seen ∧
        s.Follows r i seen, ?_, ⟨hsound, hresolved, howned,
          hseen.resolve_left (by rw [hdead]; simp), hfollows⟩, ?_⟩
      · apply stable_knows hr
        rintro s s' seen ⟨howned, hseen, hfollows⟩ hinv hmoves
        exact ⟨hmoves.owned howned, hseen.moves hinv hmoves, hfollows.moves hmoves⟩
      clear! g
      rintro g _ _ ⟨hsound, hresolved, howned, hseen, hfollows⟩ ⟨-, rfl, rfl⟩
      rcases hseen with ⟨vector, hvector, hmem⟩ | ⟨hnone, -⟩
      · apply Secure.done (Knows r [i] fun s seen =>
          (∃ vector, s.vectors i = some vector ∧ vector ∈ seen) ∧ s.Follows r i seen)
        · apply stable_knows hr
          rintro s s' seen ⟨⟨vector, hvector, hmem⟩, hfollows⟩ hinv hmoves
          exact ⟨⟨vector, hmoves.vectors_of hvector, List.mem_append_right _ hmem⟩,
            hfollows.moves hmoves⟩
        · exact ⟨hsound, hresolved, ⟨vector, hvector, hmem⟩, hfollows⟩
        rw [vectors_of_owned howned] at hvector
        rw [show g.reply (.vectorExists i) = true by
          change (g.machine.st.vectors i).isSome = true
          rw [hvector]
          rfl]
        exact fun g hknows => secure_read hr hknows
      · rw [vectors_of_owned howned] at hnone
        rw [show g.reply (.vectorExists i) = false by
          change (g.machine.st.vectors i).isSome = false
          rw [hnone]
          rfl]
        exact Secure.done (fun _ => True) (fun _ _ _ _ => trivial) trivial
          fun g _ => secure_notFound g

theorem Runs.secure (hr : r < 2 ^ 63) {g : Getting V Row} {p : Prog V Row (GetResult V)}
    (hruns : Runs (staysMapped r) r g p) :
    Secure (Env r) (Step (staysMapped r)) p
      (fun result g => result = .notFound ∨ ∃ vector, result = .ok vector ∧ vector ∈ g.seen)
      g := by
  induction hruns with
  | called hsound => exact secure_getDense hr hsound
  | wrote _ hstep ih => exact ih.env ⟨_, hstep, rfl⟩
  | got _ hmeets ih => exact ih.step ⟨hmeets, rfl, rfl⟩

end Getting

/-! Schedules -/

/-- A turn of a writer, or the call of a write. -/
inductive Turn (V Row : Type) where
  | begins (call : WriteCall V Row)
  | writer (r : Nat)

def Machine.turn (m : Machine V Row) : Turn V Row → Option (Machine V Row)
  | .begins call =>
      if call.r ≤ kMaxRealId ∧ (m.writers call.r).isNone then
        some { m with writers := Function.update m.writers call.r (some call.program) }
      else none
  | .writer r =>
      match m.writers r with
      | none => none
      | some (.done _) => some { m with writers := Function.update m.writers r none }
      | some (.call c next) =>
          some ⟨(exec c m.st).2, ownerAfter r c (exec c m.st).1 m.owner,
            Function.update m.writers r (some (next (exec c m.st).1))⟩

theorem Machine.writerStep_turn {m m' : Machine V Row} {turn : Turn V Row}
    (hturn : m.turn turn = some m') : WriterStep m m' := by
  cases turn with
  | begins call =>
      unfold Machine.turn at hturn
      simp only at hturn
      split at hturn
      · rename_i hfree
        cases hturn
        exact .begins call hfree.1 (Option.isNone_iff_eq_none.mp hfree.2)
      · cases hturn
  | writer r =>
      unfold Machine.turn at hturn
      simp only at hturn
      split at hturn
      · cases hturn
      · rename_i hwriter
        cases hturn
        exact .ends hwriter
      · rename_i hwriter
        cases hturn
        exact .calls hwriter

/-- Turns of writers, from a store without any. -/
def Machine.turns (turns : List (Turn V Row)) (m : Machine V Row) : Option (Machine V Row) :=
  turns.foldlM Machine.turn m

theorem Machine.Sound.turns {m m' : Machine V Row} (hsound : m.Sound)
    {turns : List (Turn V Row)} (hturns : m.turns turns = some m') : m'.Sound := by
  induction turns generalizing m with
  | nil =>
      cases hturns
      exact hsound
  | cons turn turns ih =>
      obtain ⟨next, hturn, hrest⟩ := Option.bind_eq_some_iff.mp hturns
      exact ih (hsound.step (writerStep_turn hturn)) hrest

namespace Getting

/-- One turn: `none` for the `Get`, else one of a writer. -/
def turn (Condition : Call V Row → Getting V Row → Bool) (r : Nat)
    (now : Getting V Row × Prog V Row (GetResult V)) :
    Option (Turn V Row) → Option (Getting V Row × Prog V Row (GetResult V))
  | some turn => (now.1.machine.turn turn).map fun m => (now.1.after r m, now.2)
  | none =>
      match now.2 with
      | .done _ => none
      | .call c follow =>
          if Condition c now.1 then some (now.1.next c, follow (now.1.reply c)) else none

theorem Runs.turns {Condition : Call V Row → Getting V Row → Bool} {r : Nat}
    {now now' : Getting V Row × Prog V Row (GetResult V)}
    (hruns : Runs Condition r now.1 now.2) {turns : List (Option (Turn V Row))}
    (hturns : turns.foldlM (turn Condition r) now = some now') :
    Runs Condition r now'.1 now'.2 := by
  induction turns generalizing now with
  | nil =>
      cases hturns
      exact hruns
  | cons first turns ih =>
      obtain ⟨next, hturn, hrest⟩ := Option.bind_eq_some_iff.mp hturns
      refine ih ?_ hrest
      obtain ⟨g, p⟩ := now
      cases first with
      | some step =>
          obtain ⟨m, hm, rfl⟩ := Option.map_eq_some_iff.mp hturn
          exact .wrote hruns (Machine.writerStep_turn hm)
      | none =>
          unfold Getting.turn at hturn
          simp only at hturn
          split at hturn
          · cases hturn
          · split at hturn
            · rename_i hmeets
              cases hturn
              exact .got hruns hmeets
            · cases hturn

end Getting

/-! One id, written and read -/

/-- A write of id 0 without neighbors to link. -/
def writeZero (vector : Nat) : Write Nat Unit := ⟨0, vector, none, ⟨[], [], false, false⟩⟩

/-- The id is inserted and updated: its second version is current. -/
def updatedTwice : Option (Machine Nat Unit) :=
  (Machine.empty Nat Unit).turns
    (.begins (.upsert .insert (writeZero 10)) :: List.replicate 8 (.writer 0) ++
      .begins (.upsert .update (writeZero 20)) :: List.replicate 14 (.writer 0))

def twoVersions : Machine Nat Unit := updatedTwice.get (by decide +kernel)

theorem updatedTwice_eq : updatedTwice = some twoVersions := (Option.some_get _).symm

theorem sound_twoVersions : twoVersions.Sound :=
  Machine.sound_empty.turns updatedTwice_eq

/-- The call of a `Get` of id 0. -/
def getZero : Getting Nat Unit × Prog Nat Unit (GetResult Nat) :=
  (⟨twoVersions, [], ((twoVersions.slice 0).vector? 0).toList⟩, getDense 0)

/-- Nothing else happens during the call. -/
def quietGet : Option (Getting Nat Unit × Prog Nat Unit (GetResult Nat)) :=
  (List.replicate 5 none).foldlM (Getting.turn (Getting.staysMapped 0) 0) getZero

def quietEnd : Getting Nat Unit × Prog Nat Unit (GetResult Nat) :=
  quietGet.get (by decide +kernel)

theorem quietGet_eq : quietGet = some quietEnd := (Option.some_get _).symm

/-- Between the liveness check and the second resolution the id is deleted. -/
def raceWithDelete : Option (Getting Nat Unit × Prog Nat Unit (GetResult Nat)) :=
  (List.replicate 3 none ++ some (Turn.begins (.delete 0)) ::
    List.replicate 9 (some (Turn.writer 0)) ++ List.replicate 2 none).foldlM
    (Getting.turn (fun _ _ => true) 0) getZero

def staleEnd : Getting Nat Unit × Prog Nat Unit (GetResult Nat) :=
  raceWithDelete.get (by decide +kernel)

theorem raceWithDelete_eq : raceWithDelete = some staleEnd := (Option.some_get _).symm

end AsterVec.Dense
