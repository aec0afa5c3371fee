import TwelveC.Client.BlockHashPool
import TwelveC.Relay.BlockAuth
import TwelveC.PlainCrypto
import Mathlib.Data.List.Infix

/-!
# Hashes beside a streaming preparation

A preparation makes up to four attempts at the encryption, each under a fresh
key, and every attempt hands its blocks to the one hash pool as they appear. The
blocks of an attempt that failed stay in the pool.
-/

namespace TwelveC.Client

open Lib Lib.Run BlockHashPool

/-- A thrown value: an `Error` with its message, or anything else. -/
inductive JsExn where
  | error (message : Str)
  | other
  deriving DecidableEq, Repr

/-- `/wire layout failed/i` on the message of an `Error`. -/
def isWireLayoutFailure : JsExn → Bool
  | .error message => decide (ascii "wire layout failed" <:+: Relay.BlockAuth.lower message)
  | .other => false

def wireBlockBytes16MiB : Nat := 16 * 1024 * 1024

/-- A JavaScript `Map` keeps the place of a key that is set again. -/
abbrev UploadMap := Table Str Bytes

/-- One attempt at the encryption: the blocks that it stored, and how it ended. -/
structure Attempt where
  blocks : List WireBlock
  ended : Except JsExn Unit
  deriving DecidableEq

/-- `storeWireBlock`, block by block. -/
def storeWireBlocks (blocks : List WireBlock) : UploadMap :=
  Table.empty.insertAll (blocks.map fun block => (block.token, block.data))

def Attempt.result (attempt : Attempt) : Except JsExn UploadMap :=
  attempt.ended.map fun _ => storeWireBlocks attempt.blocks

structure PrepareUploadStreamingOptions where
  preferWorker : Option Bool
  createUploadWorker : Bool
  deriving DecidableEq, Repr

/-- What the browser has: the global `Worker`, and a text as `import.meta.url`. -/
structure Runtime where
  worker : Bool
  importMetaUrl : Bool
  deriving DecidableEq, Repr

def canUseUploadPrepareWorker (runtime : Runtime) (createUploadWorker : Bool) : Bool :=
  runtime.worker && (createUploadWorker || runtime.importMetaUrl)

variable (runtime : Runtime) (options : PrepareUploadStreamingOptions)

/-- The attempt in the worker and the one on the main thread: all blocks stored, and the result. -/
def executePrepareUploadStreaming (worker main : Attempt) :
    List WireBlock × Except JsExn UploadMap :=
  if options.preferWorker ≠ some false ∧ canUseUploadPrepareWorker runtime options.createUploadWorker then
    match worker.result with
    | .ok uploads => (worker.blocks, .ok uploads)
    | .error e =>
      if options.preferWorker = some true then (worker.blocks, .error e)
      else (worker.blocks ++ main.blocks, main.result)
  else (main.blocks, main.result)

/-- The attempts that a preparation may make: at the resolved block cap and at 16 MiB. -/
structure Attempts where
  worker : Attempt
  main : Attempt
  workerAt16MiB : Attempt
  mainAt16MiB : Attempt
  deriving DecidableEq

def prepareUploadStreaming (maxWireBlockBytes : Nat) (attempts : Attempts) :
    List WireBlock × Except JsExn UploadMap :=
  match executePrepareUploadStreaming runtime options attempts.worker attempts.main with
  | (stored, .ok uploads) => (stored, .ok uploads)
  | (stored, .error e) =>
    if isWireLayoutFailure e = false ∨ maxWireBlockBytes ≤ wireBlockBytes16MiB then (stored, .error e)
    else
      let retried := executePrepareUploadStreaming runtime options attempts.workerAt16MiB
        attempts.mainAt16MiB
      (stored ++ retried.1, retried.2)

/-- A schedule of the hash pool: jobs arrive as the blocks do, and it ends with `drain` resolving. -/
structure Schedule (C : Primitives) (hashConcurrency : Nat) (stored : List WireBlock)
    (events : List Event) : Prop where
  positive : 0 < hashConcurrency
  enabled : Along (next C) Enabled (new hashConcurrency) events
  enqueued : events.filterMap Event.enqueued = stored
  drained : (exec (next C) (new hashConcurrency) events).drained = true

/-- A run of `prepareUploadStreamingWithHashes` that returns. -/
structure PreparedRun (C : Primitives) where
  runtime : Runtime
  options : PrepareUploadStreamingOptions
  hashConcurrency : Nat
  maxWireBlockBytes : Nat
  attempts : Attempts
  events : List Event
  uploads : UploadMap
  returns : (prepareUploadStreaming runtime options maxWireBlockBytes attempts).2 = .ok uploads
  schedule : Schedule C hashConcurrency
    (prepareUploadStreaming runtime options maxWireBlockBytes attempts).1 events

/-- One entry for each token of the map, with the hash of the map's bytes. -/
structure HashesOf (C : Primitives) (uploads : UploadMap) (entries : List (Str × Str)) : Prop where
  nodup : (entries.map Prod.fst).Nodup
  exact : ∀ token blockHash, (token, blockHash) ∈ entries ↔
    (uploads.find token).map (computeBlockHashSha256 C) = some blockHash

/-- A hash job over the bytes that the map has for its token, or over bytes with the same hash. -/
def Fresh (C : Primitives) (uploads : UploadMap) (job : WireBlock) : Prop :=
  (uploads.find job.token).map (computeBlockHashSha256 C) = some (computeBlockHashSha256 C job.data)

/-- Every token of the map is hashed from fresh bytes, and every other hash of a token is followed by
such a one. -/
structure Superseded (C : Primitives) (uploads : UploadMap) (hashed : List WireBlock) : Prop where
  covered : ∀ token data, uploads.find token = some data →
    ∃ job ∈ hashed, job.token = token ∧ Fresh C uploads job
  overtaken : ∀ before job after, hashed = before ++ job :: after → ¬ Fresh C uploads job →
    ∃ other ∈ after, other.token = job.token ∧ Fresh C uploads other

theorem executePrepareUploadStreaming_ok {runtime : Runtime} {options : PrepareUploadStreamingOptions}
    {worker main : Attempt} {uploads : UploadMap}
    (h : (executePrepareUploadStreaming runtime options worker main).2 = .ok uploads) :
    ∃ earlier last, (executePrepareUploadStreaming runtime options worker main).1 = earlier ++ last ∧
      uploads = storeWireBlocks last := by
  have hresult (attempt : Attempt) (h : attempt.result = .ok uploads) :
      uploads = storeWireBlocks attempt.blocks := by
    rw [Attempt.result] at h
    cases hended : attempt.ended with
    | error e =>
      rw [hended] at h
      cases h
    | ok u =>
      rw [hended] at h
      cases h
      rfl
  rw [executePrepareUploadStreaming] at h ⊢
  split
  case isTrue hworker =>
    rw [if_pos hworker] at h
    cases hw : worker.result with
    | ok other =>
      rw [hw] at h
      cases h
      exact ⟨[], worker.blocks, rfl, hresult worker hw⟩
    | error e =>
      rw [hw] at h
      dsimp only at h ⊢
      split
      case isTrue hprefer =>
        rw [if_pos hprefer] at h
        cases h
      case isFalse hprefer =>
        rw [if_neg hprefer] at h
        exact ⟨worker.blocks, main.blocks, rfl, hresult main h⟩
  case isFalse hworker =>
    rw [if_neg hworker] at h
    exact ⟨[], main.blocks, rfl, hresult main h⟩

/-- The blocks of the attempt that returned come after those of the ones that failed. -/
theorem prepareUploadStreaming_ok {runtime : Runtime} {options : PrepareUploadStreamingOptions}
    {maxWireBlockBytes : Nat} {attempts : Attempts} {uploads : UploadMap}
    (h : (prepareUploadStreaming runtime options maxWireBlockBytes attempts).2 = .ok uploads) :
    ∃ earlier last, (prepareUploadStreaming runtime options maxWireBlockBytes attempts).1 =
      earlier ++ last ∧ uploads = storeWireBlocks last := by
  rw [prepareUploadStreaming] at h ⊢
  cases hfirst : executePrepareUploadStreaming runtime options attempts.worker attempts.main with
  | mk stored result =>
    rw [hfirst] at h
    cases result with
    | ok other =>
      cases h
      have hok := executePrepareUploadStreaming_ok (congrArg Prod.snd hfirst)
      rw [hfirst] at hok
      exact hok
    | error e =>
      dsimp only at h ⊢
      split
      case isTrue hgiven =>
        rw [if_pos hgiven] at h
        cases h
      case isFalse hgiven =>
        rw [if_neg hgiven] at h
        obtain ⟨earlier, last, hblocks, huploads⟩ := executePrepareUploadStreaming_ok h
        exact ⟨stored ++ earlier, last, by rw [hblocks, List.append_assoc], huploads⟩

namespace PreparedRun

variable {C : Primitives} (run : PreparedRun C)

/-- The blocks of all attempts. -/
def stored : List WireBlock :=
  (prepareUploadStreaming run.runtime run.options run.maxWireBlockBytes run.attempts).1

/-- What `drain` returns. -/
def blockHashes : List (Str × Str) :=
  (exec (next C) (new run.hashConcurrency) run.events).results.entries

/-- The jobs whose digest was computed, in the order of completion. -/
def hashed : List WireBlock := run.events.filterMap Event.hashed

theorem blockHashes_eq : run.blockHashes =
    (Table.empty.insertAll (run.hashed.map (resultOf C))).entries := by
  rw [blockHashes, results_exec]
  rfl

theorem hashesOf_iff_find : HashesOf C run.uploads run.blockHashes ↔
    ∀ token, (Table.empty.insertAll (run.hashed.map (resultOf C))).find token =
      (run.uploads.find token).map (computeBlockHashSha256 C) := by
  rw [blockHashes_eq]
  constructor
  · intro h token
    apply Option.ext
    intro blockHash
    rw [Table.find_eq_some]
    exact h.exact token blockHash
  · intro h
    refine ⟨Table.nodup _, fun token blockHash => ?_⟩
    rw [← h token, Table.find_eq_some]

/-- The hashes are those of the returned map exactly if no hash of other bytes comes last. -/
theorem hashesOf_iff_superseded :
    HashesOf C run.uploads run.blockHashes ↔ Superseded C run.uploads run.hashed := by
  rw [hashesOf_iff_find, Table.insertAll_empty_iff]
  constructor
  · rintro ⟨hwritten, hover⟩
    refine ⟨fun token data hfind => ?_, fun before job after hrows hstale => ?_⟩
    · have hwant : (run.uploads.find token).map (computeBlockHashSha256 C) =
          some (computeBlockHashSha256 C data) := by rw [hfind, Option.map_some]
      obtain ⟨job, hjob, heq⟩ := List.mem_map.mp (hwritten token _ hwant)
      simp only [resultOf, Prod.mk.injEq] at heq
      obtain ⟨rfl, hhash⟩ := heq
      exact ⟨job, hjob, rfl, by rw [Fresh, hwant, hhash]⟩
    · have hmap : run.hashed.map (resultOf C) =
          before.map (resultOf C) ++ resultOf C job :: after.map (resultOf C) := by
        rw [hrows, List.map_append, List.map_cons]
      obtain ⟨blockHash, hlater, hwant⟩ := hover _ _ _ hmap hstale
      obtain ⟨other, hother, heq⟩ := List.mem_map.mp hlater
      simp only [resultOf, Prod.mk.injEq] at heq
      obtain ⟨htoken, rfl⟩ := heq
      exact ⟨other, hother, htoken, by rw [Fresh, htoken]; exact hwant⟩
  · rintro ⟨hcovered, hovertaken⟩
    refine ⟨fun token blockHash hwant => ?_, fun before row after hrows hstale => ?_⟩
    · obtain ⟨data, hfind, rfl⟩ := Option.map_eq_some_iff.mp hwant
      obtain ⟨job, hjob, rfl, hfresh⟩ := hcovered token data hfind
      rw [Fresh, hfind, Option.map_some] at hfresh
      exact List.mem_map.mpr ⟨job, hjob, by rw [resultOf, ← Option.some.inj hfresh]⟩
    · obtain ⟨first, rest, hhashed, rfl, hrest⟩ := List.map_eq_append_iff.mp hrows
      obtain ⟨job, others, rfl, rfl, rfl⟩ := List.map_eq_cons_iff.mp hrest
      obtain ⟨other, hother, htoken, hfresh⟩ := hovertaken first job others hhashed hstale
      rw [Fresh, htoken] at hfresh
      exact ⟨_, List.mem_map.mpr ⟨other, hother, Prod.ext htoken rfl⟩, hfresh⟩

/-- Where each token was stored once and is in the map, the map has all that was stored. -/
theorem uploads_eq_stored (hkept : ∀ block ∈ run.stored, (run.uploads.find block.token).isSome = true)
    (htokens : (run.stored.map (·.token)).Nodup) : run.uploads = storeWireBlocks run.stored := by
  obtain ⟨earlier, last, hstored, huploads⟩ := prepareUploadStreaming_ok run.returns
  rw [← stored] at hstored
  rw [hstored, List.map_append, List.nodup_append] at htokens
  obtain ⟨-, hlast, hapart⟩ := htokens
  have hkeys : ((last.map fun block => (block.token, block.data)).map Prod.fst).Nodup := by
    rw [List.map_map]
    exact hlast
  have hnone : earlier = [] := by
    rw [List.eq_nil_iff_forall_not_mem]
    intro block hblock
    obtain ⟨data, hdata⟩ := Option.isSome_iff_exists.mp
      (hkept block (by rw [hstored]; exact List.mem_append_left _ hblock))
    rw [huploads, storeWireBlocks, Table.find_insertAll_nodup hkeys, List.mem_map] at hdata
    obtain ⟨other, hother, heq⟩ := hdata
    exact hapart _ (List.mem_map.mpr ⟨block, hblock, rfl⟩) _ (List.mem_map.mpr ⟨other, hother, rfl⟩)
      (Prod.mk.inj heq).1.symm
  rw [hstored, hnone, List.nil_append, huploads]

/-- So with no block left from a failed attempt, every schedule that `drain` ends gives the right
hashes. -/
theorem hashesOf_of_single (hkept : ∀ block ∈ run.stored, (run.uploads.find block.token).isSome = true)
    (htokens : (run.stored.map (·.token)).Nodup) (hdigests : ∀ job, .finish job false ∉ run.events) :
    HashesOf C run.uploads run.blockHashes := by
  have huploads := run.uploads_eq_stored hkept htokens
  have hfind (token : Str) (data : Bytes) :
      run.uploads.find token = some data ↔ ⟨token, data⟩ ∈ run.stored := by
    have hkeys : ((run.stored.map fun block => (block.token, block.data)).map Prod.fst).Nodup := by
      rw [List.map_map]
      exact htokens
    rw [huploads, storeWireBlocks, Table.find_insertAll_nodup hkeys, List.mem_map]
    constructor
    · rintro ⟨⟨_, _⟩, hm, heq⟩
      cases heq
      exact hm
    · exact fun hm => ⟨_, hm, rfl⟩
  have hmem (job : WireBlock) : job ∈ run.hashed ↔ job ∈ run.stored := by
    have hfinished : run.hashed = run.events.filterMap Event.finished := by
      refine List.filterMap_congr fun e he => ?_
      cases e with
      | finish job digested =>
        cases digested with
        | true => rfl
        | false => exact absurd he (hdigests job)
      | _ => rfl
    have hperm := finished_perm run.schedule.enabled run.schedule.drained
    rw [hfinished, hperm.mem_iff, run.schedule.enqueued]
    rfl
  rw [hashesOf_iff_superseded]
  refine ⟨fun token data hdata => ?_, fun before job after hrows hstale => ?_⟩
  · exact ⟨_, (hmem _).mpr ((hfind token data).mp hdata), rfl, by rw [Fresh, hdata]; rfl⟩
  · have hjob : job ∈ run.hashed := by
      rw [hrows]
      exact List.mem_append_right _ List.mem_cons_self
    refine absurd ?_ hstale
    rw [Fresh, (hfind job.token job.data).mpr ((hmem job).mp hjob)]
    rfl

end PreparedRun

def firstToken : Str := ascii "token-1"

/-- The main thread encrypts the block again, under a fresh key. -/
def failedWorker : Attempts :=
  { worker := ⟨[⟨firstToken, [1]⟩], .error (.error (ascii "worker terminated"))⟩
    main := ⟨[⟨firstToken, [2]⟩, ⟨ascii "token-0", [3]⟩], .ok ()⟩
    workerAt16MiB := ⟨[], .error .other⟩
    mainAt16MiB := ⟨[], .error .other⟩ }

/-- The digest of the first block is the slowest. -/
def slowFirst : List Event :=
  [.enqueue ⟨firstToken, [1]⟩, .enqueue ⟨firstToken, [2]⟩, .finish ⟨firstToken, [2]⟩ true,
    .enqueue ⟨ascii "token-0", [3]⟩, .close, .finish ⟨ascii "token-0", [3]⟩ true,
    .finish ⟨firstToken, [1]⟩ true]

def failedWorkerRun : PreparedRun PlainCrypto.plain where
  runtime := { worker := true, importMetaUrl := true }
  options := { preferWorker := none, createUploadWorker := true }
  hashConcurrency := 12
  maxWireBlockBytes := 32 * 1024 * 1024
  attempts := failedWorker
  events := slowFirst
  uploads := storeWireBlocks failedWorker.main.blocks
  returns := by decide
  schedule := ⟨by decide, by decide +kernel, by decide, by decide +kernel⟩

/-- The map has the second encryption of the block, the hashes have the first. -/
theorem stale_hash :
    failedWorkerRun.uploads.find firstToken = some [2] ∧
    (firstToken, computeBlockHashSha256 PlainCrypto.plain [1]) ∈ failedWorkerRun.blockHashes ∧
    ¬ HashesOf PlainCrypto.plain failedWorkerRun.uploads failedWorkerRun.blockHashes := by
  have hfind : failedWorkerRun.uploads.find firstToken = some [2] := by decide +kernel
  have hstale : (firstToken, computeBlockHashSha256 PlainCrypto.plain [1]) ∈
      failedWorkerRun.blockHashes := by decide +kernel
  refine ⟨hfind, hstale, fun h => ?_⟩
  have hexact := (h.exact _ _).mp hstale
  rw [hfind] at hexact
  revert hexact
  decide +kernel

end TwelveC.Client
