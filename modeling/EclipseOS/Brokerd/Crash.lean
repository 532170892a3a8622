import EclipseOS.Brokerd.Backed
import EclipseOS.PolicyEval.Glob

/-! # Calls cut short

The power may go at any file operation of a call, or inside one. What is left opens to
the store before the call or after it, except where a revocation has begun to overwrite
a record's file and has not yet removed it. -/

namespace EclipseOS.Brokerd

open Foundation PolicyEval Cbor

def maxMessage : Nat := 32 * 1024

/-- What the wire lets a new secret be: few modes, and bindings that were parsed. -/
def NewSecret.FromWire (new : NewSecret) : Prop :=
  new.modes.length ≤ 3 ∧ ∀ binding ∈ new.boundTo,
    ∃ text, (utf8 text).length ≤ maxMessage ∧ Binding.parse text = some binding

/-- A call that changes the store, with the random bytes it draws. -/
inductive StoreCall where
  | add (new : { new : NewSecret // new.FromWire }) (value : Bytes) (now : UInt64)
      (entropy : FixedBytes 10) (draws : Draws)
  | rotate (name : String) (value : Bytes) (draws : Draws)
  | revoke (name : String)

theorem length_le_utf8 (text : String) :
    text.length ≤ (utf8 text).length ∧ (utf8 text).length ≤ 4 * text.length := by
  suffices chars : ∀ chars : List Char, chars.length ≤ (utf8 (String.ofList chars)).length ∧
      (utf8 (String.ofList chars)).length ≤ 4 * chars.length by
    have whole := chars text.toList
    rwa [String.ofList_toList, String.length_toList] at whole
  intro chars
  induction chars with
  | nil => decide
  | cons char chars induction =>
    have positive := char.utf8Size_pos
    have small := char.utf8Size_le_four
    rw [Glob.utf8_cons, List.length_append, String.length_utf8EncodeChar, List.length_cons]
    omega

theorem minted_readable {new : NewSecret} (fromWire : new.FromWire)
    (valid : new.validate = .ok ()) (now : UInt64) (entropy : FixedBytes 10) :
    (Store.minted new now entropy).Readable := by
  unfold NewSecret.validate at valid
  split_ifs at valid with named bound modes
  rw [not_or, Nat.not_lt] at bound
  refine ⟨by simpa [Store.minted] using named, bound, fun binding member => ?_, fromWire.1⟩
  rcases fromWire.2 binding member with ⟨text, short, parsed⟩
  rcases Binding.parse_toText parsed with ⟨again, length⟩
  refine ⟨again, ?_⟩
  have chars := (length_le_utf8 text).1
  have bytes := (length_le_utf8 binding.toText).2
  have most : maxMessage = 32768 := rfl
  omega

theorem temporary_apart (id : Ulid) : (FileName.sec id).temporary ≠ .sec id := by
  simp [FileName.temporary, FileName.sec]

theorem ne_temporary {path other : FileName} (kept : path.extension ≠ some "tmp") :
    path ≠ other.temporary := by
  rintro rfl
  exact kept rfl

section Calls

variable [Aead] {sealer : Sealer} {pass : Option Bytes} {files : Files FileName} {store : Store}

namespace StoreCall

/-- The store after the call and the file operations the call makes. -/
def perform (call : StoreCall) (store : Store) (files : Files FileName) :
    Store × List (FileOp FileName) :=
  match call with
  | add new value now entropy draws =>
    match store.add new.val value now entropy draws with
    | .ok (_, after, ops) => (after, ops)
    | .error _ => (store, [])
  | rotate name value draws =>
    match store.rotate name value draws with
    | .ok (_, after, ops) => (after, ops)
    | .error _ => (store, [])
  | revoke name => (store.revoke files name).2

/-- The id drawn for a new secret is not one in use. -/
def Fresh (store : Store) : StoreCall → Prop
  | add new _ now entropy _ => ∀ name entry, store.index.lookup name = some entry →
      entry.«meta».id ≠ (Store.minted new.val now entropy).id
  | _ => True

/-- The call is a revocation and the cut lies between the first zero written over the
record's file and the file's removal. -/
def CutShredding (store : Store) (finished written : Nat) : StoreCall → Prop
  | revoke name => (store.«meta» name).isSome ∧ ShredCut finished written
  | _ => False

end StoreCall

/-- Both stores know the same secrets, and read the same value for each. -/
def SameSecrets (files₁ : Files FileName) (store₁ : Store) (files₂ : Files FileName)
    (store₂ : Store) : Prop :=
  (∀ name, store₁.«meta» name = store₂.«meta» name) ∧
    ∀ name, (store₁.«meta» name).isSome →
      ∃ value, store₁.readValue files₁ name = .ok value ∧ store₂.readValue files₂ name = .ok value

/-- Cut there, the call leaves a directory that opens to the secrets of before or after. -/
def CrashAtomic (sealer : Sealer) (pass : Option Bytes) (files : Files FileName) (store : Store)
    (call : StoreCall) (finished written : Nat) : Prop :=
  let after := call.perform store files
  let left := crashed after.2 finished written files
  ∀ listing, Lists left listing → ∃ reopened,
    Store.«open» left listing sealer pass = .ok reopened ∧
      (SameSecrets left reopened files store ∨
        SameSecrets left reopened (runAll after.2 files) after.1)

/-- Directories and the stores open over them: a fresh store, a call made, a call cut
short and the directory opened again. -/
inductive Reachable (sealer : Sealer) (pass : Option Bytes) : Files FileName → Store → Prop
  | init {files : Files FileName} (listed : Listed files) (noRecords : ∀ path, path.extension = some "sec" →
      files path = none) {blob : Bytes} {master : FixedBytes 32}
      (opens : sealer.«unseal» blob pass = .ok master.val) :
      Reachable sealer pass
        (runAll (writeAtomic FileName.master.temporary .master blob) files) ⟨master, ∅⟩
  | call {files : Files FileName} {store : Store} (reachable : Reachable sealer pass files store)
      (call : StoreCall) (fresh : call.Fresh store) :
      Reachable sealer pass (runAll (call.perform store files).2 files) (call.perform store files).1
  | crash {files : Files FileName} {store : Store} (reachable : Reachable sealer pass files store)
      (call : StoreCall) (fresh : call.Fresh store) (finished written : Nat)
      {listing : List FileName}
      (lists : Lists (crashed (call.perform store files).2 finished written files) listing)
      {reopened : Store} (opened : Store.«open»
        (crashed (call.perform store files).2 finished written files) listing sealer pass =
          .ok reopened) :
      Reachable sealer pass (crashed (call.perform store files).2 finished written files) reopened

/-! ## What a call leaves -/

/-- The directories differ at most in their temporary files. -/
def Agree (files others : Files FileName) : Prop :=
  ∀ path, path.extension ≠ some "tmp" → files path = others path

section Writing

variable {record : Meta} {value : Bytes} {draws : Draws}

theorem runAll_writeRecord :
    Agree (runAll (store.writeRecord record value draws).2 files)
      (Function.update files (.sec record.id) (some (store.fileOf record value draws).encode)) :=
  fun _ kept => runAll_writeAtomic (temporary_apart record.id) _ files (ne_temporary kept)

theorem crashed_writeRecord (finished written : Nat) :
    Agree (crashed (store.writeRecord record value draws).2 finished written files) files ∨
      Agree (crashed (store.writeRecord record value draws).2 finished written files)
        (runAll (store.writeRecord record value draws).2 files) := by
  rcases crashed_writeAtomic (temporary_apart record.id)
    (store.fileOf record value draws).encode files finished written with ⟨-, old⟩ | ⟨-, new⟩
  · exact .inl fun path kept => old path (ne_temporary kept)
  · refine .inr fun path kept => ?_
    rw [runAll_writeRecord path kept]
    exact new path (ne_temporary kept)

end Writing

theorem Backed.agree (backed : Backed sealer pass files store) {others : Files FileName}
    (agree : Agree others files) : Backed sealer pass others store :=
  backed.congr agree

theorem Backed.sameSecrets (backed : Backed sealer pass files store) {others : Files FileName}
    (agree : Agree others files) : SameSecrets others store files store := by
  refine ⟨fun _ => rfl, fun name known => ?_⟩
  rcases backed.readValue known with ⟨value, read⟩
  refine ⟨value, ?_, read⟩
  rw [Store.«meta», Option.isSome_map] at known
  rcases Option.isSome_iff_exists.mp known with ⟨entry, found⟩
  have path := (backed.entries name entry found).2.1
  have held : others entry.path = files entry.path := agree _ (by rw [path]; simp [FileName.sec])
  simpa only [Store.readValue, found, held] using read

theorem Backed.perform (backed : Backed sealer pass files store) {call : StoreCall}
    (fresh : call.Fresh store) :
    Backed sealer pass (runAll (call.perform store files).2 files) (call.perform store files).1 := by
  cases call with
  | add new value now entropy draws =>
    unfold StoreCall.perform
    dsimp only
    cases added : store.add new.val value now entropy draws with
    | error error => exact backed
    | ok result =>
      unfold Store.add at added
      rcases bind_eq_ok.mp added with ⟨_, valid, added⟩
      split_ifs at added with large known
      cases added
      have isValid : new.val.validate = .ok () := by
        cases checked : new.val.validate with
        | ok => rfl
        | error error => rw [checked] at valid; cases valid
      refine (backed.write (minted_readable new.property isValid now entropy)
        (Nat.not_lt.mp large) (fun name entry found => ?_) draws).agree runAll_writeRecord
      constructor
      · rintro rfl
        rw [Option.not_isSome_iff_eq_none] at known
        exact absurd (known.symm.trans found) nofun
      · exact fun same => absurd same (fresh name entry found)
  | rotate name value draws =>
    unfold StoreCall.perform
    dsimp only
    cases rotated : store.rotate name value draws with
    | error error => exact backed
    | ok result =>
      unfold Store.rotate at rotated
      split_ifs at rotated with large
      split at rotated
      · cases rotated
      · rename_i entry found
        cases rotated
        rcases backed.entries name entry found with ⟨rfl, path, readable, -⟩
        have again : { entry.«meta» with
            rotationCounter := entry.«meta».rotationCounter + 1 }.Readable :=
          ⟨readable.named, readable.bound, readable.bindings, readable.modes⟩
        refine (backed.write again (Nat.not_lt.mp large) (fun other entry' found' => ?_)
          draws).agree runAll_writeRecord
        constructor
        · rintro rfl
          rw [found] at found'
          cases found'
          rfl
        · exact fun same => backed.distinct other _ entry' entry found' found same
  | revoke name =>
    unfold StoreCall.perform Store.revoke
    dsimp only
    cases found : store.index.lookup name with
    | none => exact backed
    | some entry =>
      rcases backed.entries name entry found with ⟨-, path, -, value, -, draws, held⟩
      rw [← path] at held
      simp only [held, runAll_shred]
      exact backed.erase found

/-- Where it does not cut a revocation's overwriting, a cut leaves the directory of before
or after, but for temporary files. -/
theorem Backed.crashed_agree (backed : Backed sealer pass files store) (call : StoreCall)
    {finished written : Nat} (whole : ¬call.CutShredding store finished written) :
    Agree (crashed (call.perform store files).2 finished written files) files ∨
      Agree (crashed (call.perform store files).2 finished written files)
        (runAll (call.perform store files).2 files) := by
  have nothing : Agree (crashed [] finished written files) files := by
    rw [crashed_nil]
    exact fun _ _ => rfl
  cases call with
  | add new value now entropy draws =>
    unfold StoreCall.perform
    dsimp only
    cases added : store.add new.val value now entropy draws with
    | error error => exact .inl nothing
    | ok result =>
      unfold Store.add at added
      rcases bind_eq_ok.mp added with ⟨_, -, added⟩
      split_ifs at added with large known
      cases added
      exact crashed_writeRecord finished written
  | rotate name value draws =>
    unfold StoreCall.perform
    dsimp only
    cases rotated : store.rotate name value draws with
    | error error => exact .inl nothing
    | ok result =>
      unfold Store.rotate at rotated
      split_ifs at rotated with large
      split at rotated
      · cases rotated
      · cases rotated
        exact crashed_writeRecord finished written
  | revoke name =>
    unfold StoreCall.perform Store.revoke
    dsimp only
    cases found : store.index.lookup name with
    | none => exact .inl nothing
    | some entry =>
      rcases backed.entries name entry found with ⟨-, path, -, value, -, draws, held⟩
      rw [← path] at held
      have clear : ¬ShredCut finished written := fun cut =>
        whole ⟨by rw [Store.«meta», found]; rfl, cut⟩
      simp only [held, runAll_shred]
      rcases crashed_shred held clear with old | gone
      · exact .inl fun other _ => congrFun old other
      · exact .inr fun other _ => congrFun gone other

theorem Backed.not_open (backed : Backed sealer pass files store) {call : StoreCall}
    {finished written : Nat} (cut : call.CutShredding store finished written)
    {listing : List FileName}
    (lists : Lists (crashed (call.perform store files).2 finished written files) listing)
    (reopened : Store) :
    Store.«open» (crashed (call.perform store files).2 finished written files) listing sealer
      pass ≠ .ok reopened := by
  cases call with
  | add new value now entropy draws => exact cut.elim
  | rotate name value draws => exact cut.elim
  | revoke name =>
    rcases cut with ⟨known, shredding⟩
    rw [Store.«meta», Option.isSome_map] at known
    rcases Option.isSome_iff_exists.mp known with ⟨entry, found⟩
    rcases backed.entries name entry found with ⟨-, path, -, value, -, draws, held⟩
    have ops : (StoreCall.perform (.revoke name) store files).2 =
        shred (.sec entry.«meta».id) (store.fileOf entry.«meta» value draws).encode.length := by
      rw [← path] at held ⊢
      simp only [StoreCall.perform, Store.revoke, found, held]
    rw [ops] at lists ⊢
    rcases crashed_shred_cut held (File.encode_ne_nil _) shredding with ⟨rest, zeroed⟩
    exact open_of_zero lists zeroed

theorem Reachable.backed (reachable : Reachable sealer pass files store) :
    Backed sealer pass files store := by
  induction reachable with
  | @init files listed noRecords blob master opens =>
    have apart : FileName.master.temporary ≠ .master := by
      simp [FileName.temporary, FileName.master]
    have held (path : FileName) (kept : path.extension ≠ some "tmp") :=
      runAll_writeAtomic apart blob files (ne_temporary kept)
    refine ⟨⟨blob, ?_, opens⟩, ?_, fun path isSec present => ?_, ?_⟩
    · rw [held _ (by simp [FileName.master]), Function.update_self]
    · intro name entry found
      rw [Finmap.lookup_empty] at found
      cases found
    · have other : path ≠ .master := by
        rintro rfl
        revert isSec
        decide
      rw [held path (by simp [isSec]), Function.update_of_ne other, noRecords path isSec] at present
      cases present
    · intro name other entry entry' found
      rw [Finmap.lookup_empty] at found
      cases found
  | call reachable call fresh induction => exact induction.perform fresh
  | @crash files store reachable call fresh finished written listing lists reopened opened
      induction =>
      by_cases cut : call.CutShredding store finished written
      · exact absurd opened (induction.not_open cut lists _)
      · rcases induction.crashed_agree call cut with old | new
        · have backed := induction.agree old
          cases (backed.open lists).symm.trans opened
          exact backed
        · have backed := (induction.perform fresh).agree new
          cases (backed.open lists).symm.trans opened
          exact backed

theorem Backed.not_crashAtomic (backed : Backed sealer pass files store) {call : StoreCall}
    {finished written : Nat} (cut : call.CutShredding store finished written)
    {listing : List FileName}
    (lists : Lists (crashed (call.perform store files).2 finished written files) listing) :
    ¬CrashAtomic sealer pass files store call finished written := by
  intro atomic
  rcases atomic listing lists with ⟨reopened, opened, -⟩
  exact backed.not_open cut lists reopened opened

theorem Reachable.listed (reachable : Reachable sealer pass files store) : Listed files := by
  induction reachable with
  | init listed noRecords opens => exact listed_runAll listed
  | call reachable call fresh induction => exact listed_runAll induction
  | crash reachable call fresh finished written lists opened induction =>
    exact listed_crashed _ induction finished written

/-- Cut anywhere, a call leaves the secrets of before or of after, except where it is a
revocation that has written a zero over the record's file and not yet removed it. -/
theorem crash_atomic_iff (reachable : Reachable sealer pass files store) (call : StoreCall)
    (fresh : call.Fresh store) (finished written : Nat) :
    CrashAtomic sealer pass files store call finished written ↔
      ¬call.CutShredding store finished written := by
  have backed := reachable.backed
  constructor
  · intro atomic cut
    rcases listed_crashed (call.perform store files).2 reachable.listed finished written
      with ⟨listing, lists⟩
    exact backed.not_crashAtomic cut lists atomic
  · intro whole listing lists
    rcases backed.crashed_agree call whole with old | new
    · exact ⟨store, (backed.agree old).open lists, .inl (backed.sameSecrets old)⟩
    · have after := backed.perform fresh
      exact ⟨_, (after.agree new).open lists, .inr (after.sameSecrets new)⟩

end Calls

/-! ## One secret, revoked -/

section Example

/-- A cipher that hides nothing and tags everything alike. -/
@[reducible] def plainAead : Aead where
  encrypt _ _ _ plain := (plain, zeroBytes 16)
  decrypt _ _ _ body tag := if tag = zeroBytes 16 then some body else none
  decrypt_eq_some key nonce aad body tag plain := by
    simp only [Option.ite_none_right_eq_some, Option.some.injEq, Prod.mk.injEq]
    constructor
    · rintro ⟨rfl, rfl⟩
      exact ⟨rfl, rfl⟩
    · rintro ⟨rfl, rfl⟩
      exact ⟨rfl, rfl⟩
  length_encrypt _ _ _ _ := rfl

def plainSealer : Sealer where
  «unseal» blob _ := .ok blob

def token : NewSecret :=
  ⟨"tok", .bearer, [.host "api.acme.com" 443], [.proxyHeader], false, none⟩

theorem token_fromWire : token.FromWire := by
  refine ⟨by decide, fun binding member => ?_⟩
  rcases List.mem_singleton.mp member with rfl
  exact ⟨"host:api.acme.com", by decide, by decide⟩

def noDraws : Draws := ⟨zeroBytes 32, zeroBytes 24, zeroBytes 24, zeroBytes 24⟩

def freshFiles : Files FileName :=
  runAll (writeAtomic FileName.master.temporary .master (zeroBytes 32).val) fun _ => none

def freshStore : Store := ⟨zeroBytes 32, ∅⟩

def addToken : StoreCall :=
  .add ⟨token, token_fromWire⟩ [1, 2, 3] 1000 (zeroBytes 10) noDraws

def tokenFiles : Files FileName :=
  runAll (@StoreCall.perform plainAead addToken freshStore freshFiles).2 freshFiles

def tokenStore : Store := (@StoreCall.perform plainAead addToken freshStore freshFiles).1

theorem added_reachable (new : { new : NewSecret // new.FromWire }) (value : Bytes) (now : UInt64) :
    @Reachable plainAead plainSealer none
      (runAll (@StoreCall.perform plainAead (.add new value now (zeroBytes 10) noDraws) freshStore
        freshFiles).2 freshFiles)
      (@StoreCall.perform plainAead (.add new value now (zeroBytes 10) noDraws) freshStore
        freshFiles).1 := by
  have listed : Listed (fun _ : FileName => (none : Option Bytes)) :=
    ⟨[], List.nodup_nil, fun _ => by simp⟩
  have start : @Reachable plainAead plainSealer none freshFiles freshStore :=
    @Reachable.init plainAead plainSealer none _ listed (fun _ _ => rfl) _ (zeroBytes 32) rfl
  refine @Reachable.call plainAead plainSealer none _ _ start _ ?_
  intro name entry found
  rw [freshStore, Finmap.lookup_empty] at found
  cases found

theorem token_reachable : @Reachable plainAead plainSealer none tokenFiles tokenStore :=
  added_reachable ⟨token, token_fromWire⟩ [1, 2, 3] 1000

theorem token_known : (tokenStore.«meta» "tok").isSome := by
  decide

/-- Cut before its first zero, the revocation has not happened. -/
theorem crash_atomic_token :
    @CrashAtomic plainAead plainSealer none tokenFiles tokenStore (.revoke "tok") 0 0 :=
  (@crash_atomic_iff plainAead plainSealer none _ _ token_reachable (.revoke "tok") trivial 0
    0).mpr fun cut => absurd cut.2 (by decide)

/-- Cut after its first zero, it has taken the whole store with it. -/
theorem revoke_cut_locks_out :
    @Reachable plainAead plainSealer none tokenFiles tokenStore ∧
      (StoreCall.revoke "tok").Fresh tokenStore ∧
      ¬@CrashAtomic plainAead plainSealer none tokenFiles tokenStore (.revoke "tok") 0 1 := by
  refine ⟨token_reachable, trivial, ?_⟩
  have listed := (@Reachable.listed plainAead _ _ _ _ token_reachable)
  rcases listed_crashed (@StoreCall.perform plainAead (.revoke "tok") tokenStore tokenFiles).2
    listed 0 1 with ⟨listing, lists⟩
  have backed := @Reachable.backed plainAead _ _ _ _ token_reachable
  exact @Backed.not_crashAtomic plainAead _ _ _ _ backed (.revoke "tok") 0 1
    ⟨token_known, by decide⟩ listing lists

end Example

end EclipseOS.Brokerd
