/-
# One queue for commands and hand-over messages

`Call` takes a message from a peer and puts it into the request queue; a worker
takes a message from the queue and runs it.  `ComSignData` and
`ComSignBrocastData` carry a sign command to `DoSign`, and for a command that
passes, `signEC` puts one `SignData` message for each hash into the same queue; a
worker that takes it runs `SignEC3` and appends the signature to the list of the
command.

Nothing tells a `SignData` message of the node from one of a peer, so a peer can
have any hash signed (`peer_reaches_signEC3`).  `signed_for_commands`: in a run in
which no delivered message is a `SignData` message, every call of `SignEC3` and
every appended signature is for a hash of a command that passed `DoSign`.
-/
import ThresholdDsa.Smpc.DoSign
import ThresholdDsa.Smpc.PreSignData

namespace ThresholdDsa.Smpc.Dispatch

open Outcome GoText List Option

/-! ## Messages -/

/-- `map[string]string` as JSON gives it. -/
abbrev MsgMap := List (Text × Text)

def MsgMap.field (m : MsgMap) (name : Text) : Option Text := m.lookup name

structure SignData where
  (MsgPrex Key InputCodeT Txhash GroupID Keytype Pub : Text)
  Pre : PreSignData
  deriving DecidableEq

structure SignPickData where
  Raw : Text
  PickData : List PickHashData
  deriving DecidableEq

structure SignBrocastData where
  Raw : Text
  PickHash : List PickHashKey
  deriving DecidableEq

def tType : Text := ['T', 'y', 'p', 'e']
def tSignData : Text := ['S', 'i', 'g', 'n', 'D', 'a', 't', 'a']
def tComSignData : Text := ['C', 'o', 'm', 'S', 'i', 'g', 'n', 'D', 'a', 't', 'a']
def tComSignBrocastData : Text :=
  ['C', 'o', 'm', 'S', 'i', 'g', 'n', 'B', 'r', 'o', 'c', 'a', 's', 't', 'D', 'a', 't', 'a']
def tSyncPreSign : Text := ['S', 'y', 'n', 'c', 'P', 'r', 'e', 'S', 'i', 'g', 'n']
def tKey : Text := ['K', 'e', 'y']
def tMsg : Text := ['M', 's', 'g']
def tGid : Text := ['G', 'i', 'd']
def tMsgType : Text := ['M', 's', 'g', 'T', 'y', 'p', 'e']
def tMSG2PEER : Text := ['M', 'S', 'G', '2', 'P', 'E', 'E', 'R']

/-- Compression, encryption to the node's key, JSON, and the keys derived along an input code.
`message` is the JSON text that `signEC` writes: it is no ciphertext and reads back. -/
structure Wire where
  (UnCompress DecryptMsg : Text → Option Text)
  Unmarshal : Text → Option MsgMap
  UnmarshalSignData : Text → Option SignData
  UnCompressSignData : Text → Option SignPickData
  UnCompressSignBrocastData : Text → Option SignBrocastData
  derive : Text → Text → Option Text
  message : SignData → Text
  decrypt_message : ∀ sd, DecryptMsg (message sd) = none
  unmarshal_message : ∀ sd, ∃ m, Unmarshal (message sd) = some m ∧
    m.field tType = some tSignData ∧ (m.field tSignData).bind UnmarshalSignData = some sd

section

variable (E : Env) (W : Wire)

/-! ## `Call` -/

def isMsg2Peer (m : MsgMap) : Bool := m.field tMsgType = some tMSG2PEER

/-- The message inside an envelope to a peer; an incomplete envelope has none. -/
def msg2Peer (m : MsgMap) : Option Text := do
  let _ ← (m.field tGid).filter (· ≠ [])
  let s ← (m.field tMsg).filter (· ≠ [])
  let _ ← (m.field tKey).filter (· ≠ [])
  let tmp ← hexDecode s
  (W.DecryptMsg tmp).filter (· ≠ [])

/-- Approvals are executed at once, everything else goes into the queue. -/
def queueRaw (db : Db) (s : Text) : Option Text :=
  match CheckRaw E db s with
  | .ok (_, ⟨_, _, .acceptReqAddr _⟩) => none
  | .ok (_, ⟨_, _, .acceptSign _⟩) => none
  | .error .panic => none
  | _ => some s

/-- Messages with a key belong to a running protocol. -/
def queueMap (db : Db) (m : MsgMap) (s : Text) : Option Text :=
  if (m.field tKey).isSome ∨ m.field tType = some tSyncPreSign then none else queueRaw E db s

/-- The text that `Call` puts into the queue; `taken` is whether the worker of an envelope exists
and has not seen it. -/
def Call (db : Db) (msg : Text) (taken : Bool) : Option Text :=
  if msg = [] then none else
    let s := (W.UnCompress msg).getD msg
    match W.Unmarshal s with
    | none => queueRaw E db s
    | some m =>
      if isMsg2Peer m then
        if taken then do
          let ss ← msg2Peer W m
          let m ← W.Unmarshal ss
          queueMap E db m ss
        else none
      else queueMap E db m s

/-! ## Running a message -/

/-- A call of `SignEC3`: the hash and the public key. -/
structure Signing where
  (hash pub : Text)
  deriving DecidableEq

/-- `passed` are the commands carried to `sign`, `signed` the calls of `SignEC3`, and `rsv` the
appended signatures: the key of the command's worker and the hash. -/
structure Node where
  queue : List (Text × Enode)
  passed : List SignJob
  signed : List Signing
  rsv : List (Text × Text)

/-- What a message meets when it runs: the databases, the end of the approval wait, the pre-sign
data of a broadcast, whether the private share is stored, whether `SignEC3` returns a signature and
whether the worker of the command is still there. -/
structure Circumstances where
  db : Db
  wait : Phase
  picks : SignBrocastData → Option (List PickHashData)
  (hasSkU1 signs found : Bool)

/-- A hash without its `0x`; a text of one character panics. -/
def stripHash : Text → Outcome Text
  | '0' :: 'x' :: rest => pure rest
  | c :: d :: rest => pure (c :: d :: rest)
  | _ => .error .panic

def pickFor (picks : List PickHashData) (vv : Text) : Option PreSignData :=
  (picks.find? fun val => E.folding.EqualFold val.Hash ('0' :: 'x' :: vv) ∨
    E.folding.EqualFold val.Hash vv).map (·.Pre)

/-- The messages of `signEC`, one for each hash that has pre-sign data. -/
def signEC (job : SignJob) (pub : Text) (picks : List PickHashData) : Outcome (List SignData) := do
  let tmp ← (job.sig.MsgHash.getD []).mapM stripHash
  pure (tmp.filterMap fun vv => (pickFor E picks vv).map fun pick =>
    { MsgPrex := job.key
      Key := E.Keccak256Hash (E.ToLower (job.key ++ '-' :: vv))
      InputCodeT := job.sig.InputCode
      Txhash := vv
      GroupID := job.sig.GroupID
      Keytype := job.sig.Keytype
      Pub := pub
      Pre := pick })

/-- The public key that `sign` uses. -/
def storedPub (db : Db) (sig : TxDataSign) : Option Text := do
  let pd ← (← db.pubKey (← hexDecode sig.PubKey)).pubKey?
  pure pd.Pub

def sign (c : Circumstances) (job : SignJob) (picks : List PickHashData) : Outcome (List SignData) :=
  match storedPub c.db job.sig with
  | none => .error (.error "get sign data from db fail")
  | some pub =>
    if ¬ c.hasSkU1 then .error (.error "sign get sku1 fail")
    else if job.sig.Keytype = ED25519 then pure []
    else signEC E job pub picks

def runSign (c : Circumstances) (sbd : SignPickData) (sender : Enode) (s : Node) : Node :=
  match DoSign E c.db sbd.Raw sender c.wait with
  | .error _ => s
  | .ok (job, _) =>
    let s := { s with passed := s.passed ++ [job] }
    match sign E c job sbd.PickData with
    | .error _ => s
    | .ok sds => { s with queue := s.queue ++ sds.map fun sd => (W.message sd, E.curEnode) }

/-- The public key of an input code; the derivation needs a stored chain code. -/
def childPub (pub inputCode : Text) : Option Text :=
  if inputCode = [] then some pub else W.derive pub inputCode

/-- `SignEC3` for the key of the input code, and the signature for the worker of the command. -/
def runSignData (c : Circumstances) (sd : SignData) (s : Node) : Node :=
  match childPub W sd.Pub sd.InputCodeT with
  | none => s
  | some pub =>
    let s := { s with signed := s.signed ++ [⟨sd.Txhash, pub⟩] }
    if c.signs ∧ c.found then { s with rsv := s.rsv ++ [(sd.MsgPrex, sd.Txhash)] } else s

/-- `RecvMsg.Run` on a message; other messages do not sign. -/
def runMessage (c : Circumstances) (msg : Text) (sender : Enode) (s : Node) : Node :=
  match W.Unmarshal ((W.DecryptMsg msg).getD msg) with
  | none => s
  | some m =>
    if sender = [] then s
    else if m.field tType = some tSignData then
      match (m.field tSignData).bind W.UnmarshalSignData with
      | some sd => runSignData W c sd s
      | none => s
    else if m.field tType = some tComSignBrocastData then
      match (m.field tComSignBrocastData).bind W.UnCompressSignBrocastData with
      | none => s
      | some sbd =>
        match c.picks sbd with
        | none => s
        | some pickdata => runSign E W c ⟨sbd.Raw, pickdata⟩ sender s
    else if m.field tType = some tComSignData then
      match (m.field tComSignData).bind W.UnCompressSignData with
      | none => s
      | some signpick => runSign E W c signpick sender s
    else s

/-- A peer's message, a message of another part of the node, or a worker that takes the message at
some place of the queue. -/
inductive Event where
  | call (db : Db) (msg : Text) (enode : Enode) (taken : Bool)
  | own (msg : Text)
  | run (place : ℕ) (c : Circumstances)

def Node.step (s : Node) : Event → Node
  | .call db msg enode taken =>
    match Call E W db msg taken with
    | none => s
    | some text => { s with queue := s.queue ++ [(text, enode)] }
  | .own msg => { s with queue := s.queue ++ [(msg, E.curEnode)] }
  | .run place c =>
    match s.queue[place]? with
    | none => s
    | some (msg, sender) => runMessage E W c msg sender { s with queue := s.queue.eraseIdx place }

def Node.run (s : Node) (events : List Event) : Node := events.foldl (Node.step E W) s

def Node.empty : Node := ⟨[], [], [], []⟩

end

/-! ## Where a signature comes from -/

section

variable (E : Env) (W : Wire)

/-- The message, decrypted if it can be, is a `SignData` message. -/
def SaysSignData (msg : Text) : Prop :=
  ∃ m, W.Unmarshal ((W.DecryptMsg msg).getD msg) = some m ∧ m.field tType = some tSignData

/-- The text of a peer's message: uncompressed, or from inside its envelope. -/
def TextOf (msg text : Text) : Prop :=
  text = (W.UnCompress msg).getD msg ∨
    ∃ m, W.Unmarshal ((W.UnCompress msg).getD msg) = some m ∧ msg2Peer W m = some text

def Event.NotSignData : Event → Prop
  | .call _ msg _ _ => ∀ text, TextOf W msg text → ¬ SaysSignData W text
  | .own msg => ¬ SaysSignData W msg
  | .run _ _ => True

/-- The hash is one of the command's. -/
def SignJob.Asks (job : SignJob) (hash : Text) : Prop :=
  ∃ v ∈ job.sig.MsgHash.getD [], stripHash v = .ok hash

/-- The command passed `DoSign`, and `root` is its public key then. -/
def PassedWith (job : SignJob) (root : Text) : Prop :=
  ∃ db raw sender wait written, DoSign E db raw sender wait = .ok (job, written) ∧
    storedPub db job.sig = some root

/-- The hand-over message is one of the command. -/
structure MadeFor (job : SignJob) (sd : SignData) : Prop where
  key : sd.MsgPrex = job.key
  asks : SignJob.Asks job sd.Txhash
  code : sd.InputCodeT = job.sig.InputCode
  passed : PassedWith E job sd.Pub

structure Traced (s : Node) : Prop where
  queue : ∀ entry ∈ s.queue, SaysSignData W entry.1 →
    ∃ sd, entry.1 = W.message sd ∧ ∃ job ∈ s.passed, MadeFor E job sd
  signed : ∀ g ∈ s.signed, ∃ job ∈ s.passed, SignJob.Asks job g.hash ∧
    ∃ root, PassedWith E job root ∧ childPub W root job.sig.InputCode = some g.pub
  rsv : ∀ entry ∈ s.rsv, ∃ job ∈ s.passed, job.key = entry.1 ∧ SignJob.Asks job entry.2

variable {E W} {s : Node} {db : Db} {text : Text}

theorem queueRaw_eq {t : Text} (queued : queueRaw E db t = some text) : text = t := by
  unfold queueRaw at queued
  split at queued
  · exact absurd queued (by simp)
  · exact absurd queued (by simp)
  · exact absurd queued (by simp)
  · exact (Option.some.inj queued).symm

theorem queueMap_eq {m : MsgMap} {t : Text} (queued : queueMap E db m t = some text) :
    text = t := by
  unfold queueMap at queued
  split at queued
  · exact absurd queued (by simp)
  · exact queueRaw_eq queued

theorem textOf_call {msg : Text} {taken : Bool} (queued : Call E W db msg taken = some text) :
    TextOf W msg text := by
  unfold Call at queued
  split at queued
  · exact absurd queued (by simp)
  dsimp only at queued
  split at queued
  · exact .inl (queueRaw_eq queued)
  rename_i m unmarshalled
  split at queued
  · split at queued
    · simp only [bind_eq_bind, bind_eq_some_iff] at queued
      obtain ⟨ss, inner, m', -, queued⟩ := queued
      exact .inr ⟨m, unmarshalled, by rw [queueMap_eq queued]; exact inner⟩
    · exact absurd queued (by simp)
  · exact .inl (queueMap_eq queued)

/-- Every message of `signEC` is for a hash of the command. -/
theorem madeFor_of_sign {c : Circumstances} {sender : Enode} {raw : Text} {job : SignJob}
    {written : Db} {picks : List PickHashData} {sds : List SignData}
    (passed : DoSign E c.db raw sender c.wait = .ok (job, written))
    (signed : sign E c job picks = .ok sds) : ∀ sd ∈ sds, MadeFor E job sd := by
  unfold sign at signed
  split at signed
  · exact absurd signed (by simp)
  rename_i root root_eq
  split at signed
  · exact absurd signed (by simp)
  split at signed
  · cases signed
    exact fun sd mem => absurd mem (by simp)
  simp only [signEC, eq_ok, mapM_eq_ok] at signed
  obtain ⟨tmp, stripped, rfl⟩ := signed
  intro sd mem
  obtain ⟨vv, vv_mem, made⟩ := mem_filterMap.mp mem
  obtain ⟨pick, -, rfl⟩ := map_eq_some_iff.mp made
  exact ⟨rfl, exists_of_mem_forall₂ stripped vv_mem, rfl, c.db, raw, sender, c.wait, written, passed,
    root_eq⟩

variable (traced : Traced E W s)

include traced

theorem Traced.runSign (c : Circumstances) (sbd : SignPickData)
    (sender : Enode) : Traced E W (Dispatch.runSign E W c sbd sender s) := by
  unfold Dispatch.runSign
  split
  · exact traced
  rename_i job written passed
  have grown : Traced E W { s with passed := s.passed ++ [job] } := by
    refine ⟨fun entry mem typed => ?_, fun g mem => ?_, fun entry mem => ?_⟩
    · obtain ⟨sd, sd_eq, j, j_mem, made⟩ := traced.queue entry mem typed
      exact ⟨sd, sd_eq, j, mem_append_left _ j_mem, made⟩
    · obtain ⟨j, j_mem, rest⟩ := traced.signed g mem
      exact ⟨j, mem_append_left _ j_mem, rest⟩
    · obtain ⟨j, j_mem, rest⟩ := traced.rsv entry mem
      exact ⟨j, mem_append_left _ j_mem, rest⟩
  dsimp only
  split
  · exact grown
  rename_i sds signed
  refine { grown with queue := fun entry mem typed => ?_ }
  rcases mem_append.mp mem with old | new
  · exact grown.queue entry old typed
  · obtain ⟨sd, sd_mem, rfl⟩ := mem_map.mp new
    exact ⟨sd, rfl, job, by simp, madeFor_of_sign passed signed sd sd_mem⟩

theorem Traced.runSignData (c : Circumstances) {sd : SignData}
    {job : SignJob} (job_mem : job ∈ s.passed) (made : MadeFor E job sd) :
    Traced E W (Dispatch.runSignData W c sd s) := by
  unfold Dispatch.runSignData
  split
  · exact traced
  rename_i pub pub_eq
  have logged : Traced E W { s with signed := s.signed ++ [⟨sd.Txhash, pub⟩] } := by
    refine { traced with signed := fun g mem => ?_ }
    rcases mem_append.mp mem with old | new
    · exact traced.signed g old
    · obtain rfl := mem_singleton.mp new
      exact ⟨job, job_mem, made.asks, sd.Pub, made.passed, by rw [← made.code]; exact pub_eq⟩
  dsimp only
  split
  · refine { logged with rsv := fun entry mem => ?_ }
    rcases mem_append.mp mem with old | new
    · exact logged.rsv entry old
    · obtain rfl := mem_singleton.mp new
      exact ⟨job, job_mem, made.key.symm, made.asks⟩
  · exact logged

/-- A `SignData` message in the queue is one that `signEC` wrote, and it reads back. -/
theorem Traced.runMessage (c : Circumstances) {msg : Text} {sender : Enode}
    (origin : SaysSignData W msg → ∃ sd, msg = W.message sd ∧ ∃ job ∈ s.passed, MadeFor E job sd) :
    Traced E W (Dispatch.runMessage E W c msg sender s) := by
  unfold Dispatch.runMessage
  split
  · exact traced
  rename_i m unmarshalled
  split
  · exact traced
  split
  · rename_i typed
    obtain ⟨sd, rfl, job, job_mem, made⟩ := origin ⟨m, unmarshalled, typed⟩
    obtain ⟨m', read, -, sd_eq⟩ := W.unmarshal_message sd
    rw [W.decrypt_message, getD_none, read, Option.some.injEq] at unmarshalled
    subst unmarshalled
    rw [sd_eq]
    exact traced.runSignData c job_mem made
  split
  · split
    · exact traced
    · split
      · exact traced
      · exact traced.runSign c _ sender
  split
  · split
    · exact traced
    · exact traced.runSign c _ sender
  · exact traced

theorem Traced.step {event : Event} (careful : event.NotSignData W) :
    Traced E W (s.step E W event) := by
  cases event with
  | call db msg enode taken =>
    simp only [Node.step]
    split
    · exact traced
    · rename_i text queued
      refine { traced with queue := fun entry mem typed => ?_ }
      rcases mem_append.mp mem with old | new
      · exact traced.queue entry old typed
      · obtain rfl := mem_singleton.mp new
        exact absurd typed (careful text (textOf_call queued))
  | own msg =>
    refine { traced with queue := fun entry mem typed => ?_ }
    rcases mem_append.mp mem with old | new
    · exact traced.queue entry old typed
    · obtain rfl := mem_singleton.mp new
      exact absurd typed careful
  | run place c =>
    simp only [Node.step]
    split
    · exact traced
    · rename_i msg sender taken
      have dropped : Traced E W { s with queue := s.queue.eraseIdx place } :=
        { traced with queue := fun entry mem => traced.queue entry (mem_of_mem_eraseIdx mem) }
      exact dropped.runMessage c (traced.queue _ (mem_of_getElem? taken))

theorem traced_run {events : List Event}
    (careful : ∀ event ∈ events, event.NotSignData W) : Traced E W (s.run E W events) := by
  induction events generalizing s with
  | nil => exact traced
  | cons event events ih =>
    exact ih (traced.step (careful event (by simp))) fun e mem =>
      careful e (mem_cons_of_mem _ mem)

end

/-- **What is signed.**  In every run in which no message of a peer, uncompressed and taken out of
its envelope, decrypts to a `SignData` message, and no other part of the node writes one: every call
of `SignEC3` is for a hash and the public key of a command that passed `DoSign`, and every signature
appended for a command is for one of its hashes. -/
theorem signed_for_commands (E : Env) (W : Wire) {events : List Event}
    (careful : ∀ event ∈ events, event.NotSignData W) :
    (∀ g ∈ (Node.empty.run E W events).signed, ∃ job ∈ (Node.empty.run E W events).passed,
      SignJob.Asks job g.hash ∧
        ∃ root, PassedWith E job root ∧ childPub W root job.sig.InputCode = some g.pub) ∧
    ∀ entry ∈ (Node.empty.run E W events).rsv, ∃ job ∈ (Node.empty.run E W events).passed,
      job.key = entry.1 ∧ SignJob.Asks job entry.2 := by
  have start : Traced E W Node.empty :=
    ⟨fun _ mem => absurd mem (by simp [Node.empty]), fun _ mem => absurd mem (by simp [Node.empty]),
      fun _ mem => absurd mem (by simp [Node.empty])⟩
  have traced := traced_run start careful
  exact ⟨traced.signed, traced.rsv⟩

/-! ## A node with a public key of mode 1

A text `S…` is a `SignData` message with its fields written one after another, and `Cc` a
`ComSignData` message with the sign command of the account `c…c` for the hash `hh`. -/

section

open TwoNodes

def encodeTexts : List Text → Text
  | [] => []
  | t :: ts => t.flatMap (fun c => ['e', c]) ++ '.' :: encodeTexts ts

def readTexts : Text → Text → Option (List Text)
  | [], [] => some []
  | '.' :: rest, acc => (readTexts rest []).map (acc.reverse :: ·)
  | 'e' :: c :: rest, acc => readTexts rest (c :: acc)
  | _, _ => none

theorem readTexts_flatMap (t rest acc : Text) :
    readTexts (t.flatMap (fun c => ['e', c]) ++ rest) acc = readTexts rest (t.reverse ++ acc) := by
  induction t generalizing acc with
  | nil => rfl
  | cons c t ih =>
    show readTexts ('e' :: c :: (t.flatMap (fun c => ['e', c]) ++ rest)) acc = _
    rw [readTexts, ih, reverse_cons, append_assoc, singleton_append]

theorem readTexts_encodeTexts (ts : List Text) : readTexts (encodeTexts ts) [] = some ts := by
  induction ts with
  | nil => rfl
  | cons t ts ih =>
    rw [encodeTexts, readTexts_flatMap, readTexts, ih, map_some, append_nil,
      reverse_reverse]

def textsOf (sd : SignData) : List Text :=
  [sd.MsgPrex, sd.Key, sd.InputCodeT, sd.Txhash, sd.GroupID, sd.Keytype, sd.Pub, sd.Pre.Key,
    intText sd.Pre.K1, intText sd.Pre.R, intText sd.Pre.Ry, intText sd.Pre.Sigma1, sd.Pre.Gid,
    if sd.Pre.Used then ['t'] else ['f'], intText sd.Pre.Index]

def ofTexts : List Text → Option SignData
  | [MsgPrex, Key, InputCodeT, Txhash, GroupID, Keytype, Pub, PreKey, K1, R, Ry, Sigma1, Gid, Used,
      Index] => do
      pure ⟨MsgPrex, Key, InputCodeT, Txhash, GroupID, Keytype, Pub, PreKey, ← setString10 K1,
        ← setString10 R, ← setString10 Ry, ← setString10 Sigma1, Gid, Used = ['t'],
        ← setString10 Index⟩
  | _ => none

theorem ofTexts_textsOf (sd : SignData) : ofTexts (textsOf sd) = some sd := by
  obtain ⟨MsgPrex, Key, InputCodeT, Txhash, GroupID, Keytype, Pub, PreKey, K1, R, Ry, Sigma1, Gid,
    Used, Index⟩ := sd
  simp only [textsOf, ofTexts, setString10_intText]
  cases Used <;> rfl

def smallPre : PreSignData := ⟨['p'], 1, 2, 3, 4, gid, false, 0⟩

def smallWire : Wire where
  UnCompress _ := none
  DecryptMsg _ := none
  Unmarshal
    | 'S' :: rest => some [(tType, tSignData), (tSignData, rest)]
    | 'C' :: rest => some [(tType, tComSignData), (tComSignData, rest)]
    | _ => none
  UnmarshalSignData text := (readTexts text []).bind ofTexts
  UnCompressSignData text := some ⟨text, [⟨['h', 'h'], smallPre⟩]⟩
  UnCompressSignBrocastData _ := none
  derive _ _ := none
  message sd := 'S' :: encodeTexts (textsOf sd)
  decrypt_message _ := rfl
  unmarshal_message sd := by
    refine ⟨_, rfl, rfl, ?_⟩
    show (readTexts (encodeTexts (textsOf sd)) []).bind ofTexts = some sd
    rw [readTexts_encodeTexts, bind_some, ofTexts_textsOf]

def smallEnv : Env := { modeOneEnv with
  decode := fun
    | [c] => some ⟨account c, 0, .sign { modeOneData with MsgHash := some [['h', 'h']] }⟩
    | _ => none }

def usual : Circumstances where
  db := modeOneDb
  wait := .waiting
  picks _ := none
  hasSkU1 := true
  signs := true
  found := true

/-- A peer's `ComSignData` message, then the two messages in the queue. -/
def commandRun : List Event :=
  [.call modeOneDb ['C', '1'] (node 'b') true, .run 0 usual, .run 0 usual]

theorem signed_for_commands_small :
    ∃ job ∈ (Node.empty.run smallEnv smallWire commandRun).passed, SignJob.Asks job ['h', 'h'] := by
  have careful : ∀ event ∈ commandRun, event.NotSignData smallWire := by
    intro event mem
    fin_cases mem
    · rintro text (rfl | ⟨m, unmarshalled, inner⟩)
      · rintro ⟨m, unmarshalled, typed⟩
        cases unmarshalled
        exact absurd typed (by decide)
      · cases unmarshalled
        have no_envelope : msg2Peer smallWire [(tType, tComSignData), (tComSignData, ['1'])] = none := by
          decide +kernel
        exact absurd (no_envelope.symm.trans inner) (by simp)
    · trivial
    · trivial
  have signing : (⟨['h', 'h'], [Char.ofNat 4]⟩ : Signing) ∈
      (Node.empty.run smallEnv smallWire commandRun).signed := by decide +kernel
  obtain ⟨job, mem, asks, -⟩ := (signed_for_commands smallEnv smallWire careful).1 _ signing
  exact ⟨job, mem, asks⟩

def foreignData : SignData :=
  ⟨['k'], ['x'], [], ['b', 'a', 'd'], gid, EC256K1, [Char.ofNat 4], smallPre⟩

/-- A peer sends a `SignData` message: `SignEC3` runs although no command passed `DoSign`, and with a
command the signature of the peer's hash is appended to its list. -/
theorem peer_reaches_signEC3 :
    (let s := Node.empty.run smallEnv smallWire
      [.call modeOneDb (smallWire.message foreignData) (node 'b') true, .run 0 usual]
    s.signed = [⟨['b', 'a', 'd'], [Char.ofNat 4]⟩] ∧ s.passed.length = 0) ∧
    (let s := Node.empty.run smallEnv smallWire
      [.call modeOneDb ['C', '1'] (node 'b') true, .run 0 usual,
        .call modeOneDb (smallWire.message foreignData) (node 'b') true, .run 1 usual]
    s.passed.map (·.sig.MsgHash) = [some [['h', 'h']]] ∧ s.passed.map (·.key) = [['k']] ∧
      s.rsv = [(['k'], ['b', 'a', 'd'])]) := by
  decide +kernel

end

end ThresholdDsa.Smpc.Dispatch
