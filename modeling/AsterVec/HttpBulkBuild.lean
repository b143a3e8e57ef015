import AsterVec.HttpRequests

/-!
The bulk-build route: the number of vectors and their dimension come in headers, the vectors
as the bytes of the body, and payloads as a JSON array after them.
-/

namespace AsterVec.HttpBulkBuild

open AsterVec.HttpRequests

variable {F : Type}

/-- A header is `none` when the request does not have it. -/
structure Request where
  headers : String → Option String
  body : List UInt8

/-- The dimension of the index is a positive `int`. -/
structure Config where
  dim : Int
  dim_pos : 0 < dim
  dim_lt : dim < 2 ^ 31

/-- What is handed to `BulkBuild`: `size` floats from the start of the body, as `n` vectors. -/
structure BuildCall where
  size : Nat
  n : Int
  numThreads : Int
  payloadItems : List (Nat × String)

/-- The value of a header, or of its older name, or nothing. -/
def getHdr (req : Request) (suffix : String) : String :=
  ((req.headers ("X-AsterVec-" ++ suffix)).or (req.headers ("X-LSMVec-" ++ suffix))).getD ""

def kMaxPayloadBytes : Nat := 64 * 1024

/-- A number of type `size_t`. -/
def sizeT (i : Int) : Nat := (i % 2 ^ 64).toNat

/-- `n * dim * sizeof(float)` in `size_t`. -/
def vectorBytes (n dim : Int) : Nat := sizeT n * sizeT dim * 4 % 2 ^ 64

/-- The payloads in order, `null` left out, each an object that is not too large. -/
def collectPayloads (lib : JsonLibrary F) :
    Nat → List (Json F) → Except HttpError (List (Nat × String))
  | _, [] => .ok []
  | i, payload :: payloads => do
      if payload.isNull then collectPayloads lib (i + 1) payloads
      else if ¬ payload.isObject then
        .error ⟨400, "bad_payloads", "payload " ++ toString i ++ " must be an object or null"⟩
      else if kMaxPayloadBytes < (lib.dump payload).utf8ByteSize then
        .error ⟨400, "bad_payloads",
          "payload " ++ toString i ++ " exceeds " ++ toString kMaxPayloadBytes ++ " bytes"⟩
      else
        return (i, lib.dump payload) :: (← collectPayloads lib (i + 1) payloads)

/-- The payloads in the bytes after the vectors; there are none when no byte is left. -/
def trailingPayloads (lib : JsonLibrary F) (n : Int) (tail : List UInt8) :
    Except HttpError (List (Nat × String)) :=
  if tail = [] then .ok []
  else
    match lib.parse tail with
    | .error what => .error ⟨400, "bad_payloads", "payload tail JSON parse error: " ++ what⟩
    | .ok (.array payloads) =>
        if (payloads.length : Int) = n then collectPayloads lib 0 payloads
        else
          .error ⟨400, "bad_payloads",
            "payloads must be a JSON array of length n=" ++ toString n⟩
    | .ok _ =>
        .error ⟨400, "bad_payloads", "payloads must be a JSON array of length n=" ++ toString n⟩

/-- One thread unless a header asks for more. -/
def threads (req : Request) : Int :=
  match stoi (getHdr req "Threads").toList with
  | some asked => if asked ≤ 0 then 1 else asked
  | none => 1

/-- The call made for the header value `n`, which is narrowed to an `int`. -/
def buildCall (req : Request) (n dim : Int) (payloadItems : List (Nat × String)) :
    BuildCall :=
  ⟨sizeT (n.bmod (2 ^ 32)) * sizeT dim % 2 ^ 64, n.bmod (2 ^ 32), threads req, payloadItems⟩

/-- The handler up to its call of `BulkBuild`; `initialized` tells whether there is an index. -/
def handleBulkBuild (lib : JsonLibrary F) (cfg : Config) (initialized : Bool)
    (req : Request) : Except HttpError BuildCall :=
  if initialized = false then
    .error ⟨409, "index_not_initialized",
      "index has no dimension yet; call PUT /v1/index first"⟩
  else if getHdr req "N" = "" ∨ getHdr req "Dim" = "" then
    .error ⟨400, "missing_header", "X-AsterVec-N and X-AsterVec-Dim required"⟩
  else
    match stoll (getHdr req "N").toList, stoll (getHdr req "Dim").toList with
    | some n, some dim =>
        if n ≤ 0 ∨ dim ≤ 0 then
          .error ⟨400, "bad_header", "n and dim must be positive"⟩
        else if dim ≠ cfg.dim then
          .error ⟨400, "wrong_dim", "X-AsterVec-Dim (" ++ toString dim ++
            ") does not match DB dim (" ++ toString cfg.dim ++ ")"⟩
        else if req.body.length < vectorBytes n dim then
          .error ⟨400, "bad_payload", "body size " ++ toString req.body.length ++
            " < n*dim*4 = " ++ toString (vectorBytes n dim)⟩
        else
          match trailingPayloads lib n (req.body.drop (vectorBytes n dim)) with
          | .error e => .error e
          | .ok payloadItems => .ok (buildCall req n dim payloadItems)
    | _, _ =>
        .error ⟨400, "bad_header", "X-AsterVec-N / X-AsterVec-Dim must be integers"⟩

/-- The floats handed over are bytes of the body, and their number is that of the header. -/
def Owned (req : Request) (n : Int) (call : BuildCall) : Prop :=
  4 * call.size ≤ req.body.length ∧ call.n = n

section Handler

variable {lib : JsonLibrary F} {cfg : Config} {initialized : Bool} {req : Request}

theorem ne_empty_of_stoll {text : String} {i : Int} (h : stoll text.toList = some i) :
    text ≠ "" := by
  rintro rfl
  cases h

/-- What makes the handler reach `BulkBuild`. -/
theorem handleBulkBuild_ok_iff {call : BuildCall} :
    handleBulkBuild lib cfg initialized req = .ok call ↔
      initialized = true ∧ ∃ n payloadItems, stoll (getHdr req "N").toList = some n ∧
        stoll (getHdr req "Dim").toList = some cfg.dim ∧ 0 < n ∧
        vectorBytes n cfg.dim ≤ req.body.length ∧
        trailingPayloads lib n (req.body.drop (vectorBytes n cfg.dim)) = .ok payloadItems ∧
        call = buildCall req n cfg.dim payloadItems := by
  constructor
  · intro h
    unfold handleBulkBuild at h
    split at h
    · cases h
    · next hinit =>
      split at h
      · cases h
      · split at h
        · next n dim hn hdim =>
          split at h
          · cases h
          · next hpos =>
            split at h
            · cases h
            · next heq =>
              obtain rfl := not_not.mp heq
              split at h
              · cases h
              · next hlen =>
                split at h
                · cases h
                · next items hitems =>
                  obtain rfl := Except.ok.inj h
                  exact ⟨by simpa using hinit, n, items, hn, hdim, by omega, by omega, hitems,
                    rfl⟩
        · cases h
  · rintro ⟨rfl, n, items, hn, hdim, hpos, hlen, hitems, rfl⟩
    have hdimPos := cfg.dim_pos
    rw [handleBulkBuild, if_neg (by decide),
      if_neg (not_or.mpr ⟨ne_empty_of_stoll hn, ne_empty_of_stoll hdim⟩), hn, hdim]
    simp only
    rw [if_neg (by omega), if_neg (not_not.mpr rfl), if_neg (by omega), hitems]

/-- Below `2^31` no product wraps around. -/
theorem owned_of_lt {n : Int} {items : List (Nat × String)} (hpos : 0 < n)
    (hn : n < 2 ^ 31) (hlen : vectorBytes n cfg.dim ≤ req.body.length) :
    Owned req n (buildCall req n cfg.dim items) := by
  have hdimPos := cfg.dim_pos
  have hdimLt := cfg.dim_lt
  have hn32 : n.bmod (2 ^ 32) = n := by
    rw [Int.bmod_def, if_pos (by omega)]
    omega
  obtain ⟨m, rfl⟩ := Int.eq_ofNat_of_zero_le (show 0 ≤ n by omega)
  obtain ⟨d, hd⟩ := Int.eq_ofNat_of_zero_le (show 0 ≤ cfg.dim by omega)
  have hsize : ∀ i : Nat, i < 2 ^ 31 → sizeT (i : Int) = i := by
    intro i hi
    rw [sizeT]
    omega
  have hproduct : m * d < 2 ^ 31 * 2 ^ 31 :=
    Nat.mul_lt_mul'' (by omega) (by omega)
  rw [vectorBytes, hd, hsize m (by omega), hsize d (by omega), Nat.mod_eq_of_lt (by omega)]
    at hlen
  simp only [Owned, buildCall]
  rw [hn32, hd, hsize m (by omega), hsize d (by omega), Nat.mod_eq_of_lt (by omega)]
  exact ⟨by omega, rfl⟩

/-- **What the handler hands over is its own** exactly when the number of vectors fits an
`int`, or the body is refused. -/
theorem handleBulkBuild_owned_iff (lib : JsonLibrary F) (cfg : Config) (initialized : Bool)
    (req : Request) :
    (∀ n call, stoll (getHdr req "N").toList = some n →
        handleBulkBuild lib cfg initialized req = .ok call → Owned req n call) ↔
      ∀ n, initialized = true → stoll (getHdr req "N").toList = some n →
        stoll (getHdr req "Dim").toList = some cfg.dim → 0 < n →
        n < 2 ^ 31 ∨ req.body.length < vectorBytes n cfg.dim ∨
          ∀ items, trailingPayloads lib n (req.body.drop (vectorBytes n cfg.dim)) ≠ .ok items := by
  constructor
  · intro howned n hinit hn hdim hpos
    by_contra hcon
    simp only [not_or, not_forall, not_not] at hcon
    rcases hcon with ⟨hbig, hlen, items, hitems⟩
    have hcall := howned n _ hn
      (handleBulkBuild_ok_iff.mpr ⟨hinit, n, items, hn, hdim, hpos, Nat.not_lt.mp hlen,
        hitems, rfl⟩)
    have hlt : n.bmod (2 ^ 32) < 2 ^ 31 := by
      have := Int.bmod_lt (x := n) (show 0 < 2 ^ 32 by decide)
      omega
    have heq : n.bmod (2 ^ 32) = n := hcall.2
    omega
  · intro hcond n call hn hcall
    rcases handleBulkBuild_ok_iff.mp hcall with
      ⟨hinit, n', items, hn', hdim, hpos, hlen, hitems, rfl⟩
    obtain rfl : n' = n := Option.some.inj (hn'.symm.trans hn)
    rcases hcond n' hinit hn hdim hpos with hlt | hshort | hrefused
    · exact owned_of_lt hpos hlt hlen
    · omega
    · exact absurd hitems (hrefused items)

end Handler

/-- A request for `(2^64 + 8) / 12` vectors of dimension 3, whose byte size wraps to 8. -/
def overflowing : Request where
  headers
    | "X-AsterVec-N" => some "1537228672809129302"
    | "X-AsterVec-Dim" => some "3"
    | _ => none
  body := [0, 0, 0, 0, 0, 0, 0, 0]

/-- Eight bytes of body, and more than `2^32` floats of them handed over. -/
theorem overflowing_reachesBulkBuild :
    ¬ ∀ (lib : JsonLibrary Unit) (cfg : Config) (req : Request) (n : Int) (call : BuildCall),
      stoll (getHdr req "N").toList = some n →
        handleBulkBuild lib cfg true req = .ok call → Owned req n call := by
  intro h
  have hn : stoll (getHdr overflowing "N").toList = some 1537228672809129302 := by
    decide +kernel
  have hdim : stoll (getHdr overflowing "Dim").toList = some 3 := by decide +kernel
  have hbytes : vectorBytes 1537228672809129302 3 = 8 := by decide +kernel
  have htail : trailingPayloads (F := Unit) ⟨fun _ => .error "", fun _ => ""⟩ 1537228672809129302
      (overflowing.body.drop (vectorBytes 1537228672809129302 3)) =
      .ok [] := by
    rw [hbytes]
    rfl
  have hbad := h ⟨fun _ => .error "", fun _ => ""⟩ ⟨3, by decide, by decide⟩ overflowing
    _ _ hn (handleBulkBuild_ok_iff.mpr
      ⟨rfl, _, [], hn, hdim, by decide, Nat.le_of_eq hbytes, htail, rfl⟩)
  have hsize : ¬ 4 * (buildCall overflowing 1537228672809129302 3 []).size ≤ 8 := by
    decide +kernel
  exact hsize hbad.1

end AsterVec.HttpBulkBuild
