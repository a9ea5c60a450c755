import EchoServer.Proofs.Operation.Log
import EchoServer.Proofs.Service.Success

namespace EchoServer

open Service (Answer decodeRequest)

theorem Status.resolve_failure {s : Status} (h : s.code ≠ .ok) :
    resolve (some s) = .error s := by
  simp [resolve, Code.isOk, h]

/-- The status that a request asks to fail with; one with the code OK does not count. -/
def Status.failure? : Option Status → Option Status
  | some s => if s.code.isOk then none else some s
  | none => none

theorem Status.resolve_failure? (e : Option Status) : resolve (failure? e) = resolve e := by
  cases e with
  | none => rfl
  | some s => by_cases hs : s.code.isOk <;> simp [failure?, resolve, hs]

namespace Service

section
variable {metadata : Metadata} {s : Status}

theorem echo_failure {r : EchoRequest} (hr : r.error = some s) (hs : s.code ≠ .ok) :
    echo metadata r = .fail s := by
  rw [echo, hr, Status.resolve_failure hs]
  rfl

theorem expand_failure {r : EchoRequest} (hr : r.error = some s) (hs : s.code ≠ .ok) :
    expand metadata none r = ((Text.words r.content).map EchoResponse.ofContent, .fail s) := by
  rw [expand, sendAll, expandVerdict, hr, Status.resolve_failure hs]
  rfl

theorem blockOutcome_failure {r : BlockRequest} (hr : r.error = some s) (hs : s.code ≠ .ok) :
    blockOutcome metadata r = .fail s := by
  rw [blockOutcome, block, blockVerdict, hr, Status.resolve_failure hs]
  rfl

theorem collectStep_failure {r : EchoRequest} (contents : List String) (hr : r.error = some s)
    (hs : s.code ≠ .ok) : collectStep contents r = .error s := by
  rw [collectStep, hr, Status.resolve_failure hs]
  rfl

theorem chatStep_failure {r : EchoRequest} (hr : r.error = some s) (hs : s.code ≠ .ok) :
    chatStep r = .error s := by
  rw [chatStep, hr, Status.resolve_failure hs]
  rfl

/-- `Collect` fails at the first request that carries a failure, whatever comes behind it. -/
theorem collect_failure (before : List EchoRequest) (r : EchoRequest)
    (more : List (Except Status EchoRequest))
    (hbefore : ∀ q ∈ before, Status.resolve q.error = .ok ()) (hr : r.error = some s)
    (hs : s.code ≠ .ok) :
    collect metadata (before.map .ok ++ .ok r :: more) = .fail s := by
  -- whatever was collected so far is dropped with the failure
  have hfold (contents : List String) :
      (before.map (.ok : EchoRequest → Except Status EchoRequest) ++ .ok r :: more).foldlM
        (fun acc item => item.bind (collectStep acc)) contents = .error s := by
    induction before generalizing contents with
    | nil =>
      rw [List.map_nil, List.nil_append, List.foldlM_cons]
      simp only [Except.bind, collectStep_failure contents hr hs]
      rfl
    | cons q before ih =>
      obtain ⟨hq, hbefore⟩ := List.forall_mem_cons.mp hbefore
      rw [List.map_cons, List.cons_append, List.foldlM_cons]
      simp only [Except.bind, collectStep, hq, bind, pure, Except.pure]
      exact ih hbefore _
  rw [collect, hfold]
  rfl

/-- `Chat` echoes the requests before the first one that carries a failure, and fails with it. -/
theorem chat_failure (before : List EchoRequest) (r : EchoRequest)
    (more : List (Except Status EchoRequest))
    (hbefore : ∀ q ∈ before, Status.resolve q.error = .ok ()) (hr : r.error = some s)
    (hs : s.code ≠ .ok) :
    chat metadata none (before.map .ok ++ .ok r :: more) =
      (before.map fun q => .ofContent q.content, .fail s) := by
  have hresponses : chatResponses none (before.map Except.ok ++ .ok r :: more) =
      (before.map fun q => .ofContent q.content, .error s) := by
    induction before with
    | nil => simp [chatResponses, Except.bind, chatStep_failure hr hs]
    | cons q before ih =>
      obtain ⟨hq, hbefore⟩ := List.forall_mem_cons.mp hbefore
      have hstep : chatStep q = .ok (.ofContent q.content) := by
        rw [chatStep, hq]
        rfl
      simp [chatResponses, Except.bind, hstep, ih hbefore]
  rw [chat, hresponses]
  rfl

end

end Service

/-- The request without a status that asks for nothing. -/
def EchoRequest.plain (r : EchoRequest) : EchoRequest := { r with error := Status.failure? r.error }

def BlockRequest.plain (r : BlockRequest) : BlockRequest :=
  { r with error := Status.failure? r.error }

def WaitRequest.plain (r : WaitRequest) : WaitRequest := { r with error := Status.failure? r.error }

theorem WaitRequest.snapshot_plain (r : WaitRequest) (endTime : Time.Timestamp) (name : String)
    (now : Time.Timestamp) : PendingOperation.snapshot ⟨endTime, r.plain⟩ name now =
      PendingOperation.snapshot ⟨endTime, r⟩ name now := by
  simp only [PendingOperation.snapshot, PendingOperation.result, plain, Status.resolve_failure?]

namespace Service

section
variable {metadata : Metadata}

theorem echo_plain (r : EchoRequest) : echo metadata r.plain = echo metadata r := by
  simp only [echo, EchoRequest.plain, Status.resolve_failure?]

theorem expand_plain (r : EchoRequest) :
    expand metadata none r.plain = expand metadata none r := by
  simp only [expand, expandVerdict, expandResponses, EchoRequest.plain, Status.resolve_failure?]

theorem collectStep_plain (contents : List String) (r : EchoRequest) :
    collectStep contents r.plain = collectStep contents r := by
  simp only [collectStep, EchoRequest.plain, Status.resolve_failure?]
  rfl

theorem chatStep_plain (r : EchoRequest) : chatStep r.plain = chatStep r := by
  simp only [chatStep, EchoRequest.plain, Status.resolve_failure?]

theorem blockOutcome_plain (r : BlockRequest) :
    blockOutcome metadata r.plain = blockOutcome metadata r := by
  simp only [blockOutcome, block, blockVerdict, BlockRequest.plain, Status.resolve_failure?]

/-- Two bodies ask the same of a method, but for statuses that ask for nothing. -/
def Alike (m : Method) (body body' : Json) : Prop :=
  match m with
  | .echo | .expand | .collect | .chat =>
    (decodeRequest EchoRequest.decoder body).map EchoRequest.plain =
      (decodeRequest EchoRequest.decoder body').map EchoRequest.plain
  | .block =>
    (decodeRequest BlockRequest.decoder body).map BlockRequest.plain =
      (decodeRequest BlockRequest.decoder body').map BlockRequest.plain
  | .wait =>
    (decodeRequest WaitRequest.decoder body).map WaitRequest.plain =
      (decodeRequest WaitRequest.decoder body').map WaitRequest.plain
  | .pagedExpand | .pagedExpandLegacy | .getOperation => body = body'

/-- Results that agree in part fail alike, or are both there. -/
theorem cases_of_map_eq {α β : Type} {f : α → β} {x y : Except Status α} (h : x.map f = y.map f) :
    (∃ s, x = .error s ∧ y = .error s) ∨ ∃ a b, x = .ok a ∧ y = .ok b ∧ f a = f b := by
  cases x with
  | error s =>
    cases y with
    | error t =>
      obtain rfl := Except.error.inj h
      exact Or.inl ⟨s, rfl, rfl⟩
    | ok b => cases h
  | ok a =>
    cases y with
    | error t => cases h
    | ok b => exact Or.inr ⟨a, b, rfl, rfl, Except.ok.inj h⟩

/-- What does not depend on the rest is the same for both. -/
theorem bind_of_alike {α β : Type} {plain : α → α} {f : α → Except Status β}
    {x y : Except Status α} (hf : ∀ a, f (plain a) = f a) (h : x.map plain = y.map plain) :
    x.bind f = y.bind f := by
  rcases cases_of_map_eq h with ⟨s, rfl, rfl⟩ | ⟨a, b, rfl, rfl, hab⟩
  · rfl
  · show f a = f b
    rw [← hf a, hab, hf b]

theorem answer_of_alike {α β : Type} {item : Json.Decoder α} {plain : α → α} {body body' : Json}
    {handler : α → Outcome β} (encode : β → Json) (hf : ∀ a, handler (plain a) = handler a)
    (h : (decodeRequest item body).map plain = (decodeRequest item body').map plain) :
    answer item body handler encode = answer item body' handler encode := by
  unfold answer
  rcases cases_of_map_eq h with ⟨s, hs, hs'⟩ | ⟨a, b, ha, hb, hab⟩
  · rw [hs, hs']
  · rw [ha, hb]
    simp only [← hf a, hab, hf b]

/-- The answer to a body like another one is the same, at once or after the same delay. -/
theorem start_of_alike {m : Method} {body body' : Json} (now : Time.Timestamp) (r : Registry)
    (h : Alike m body body') :
    (start m metadata body' now r).1 = (start m metadata body now r).1 ∨
      ∃ n request request', (start m metadata body now r).1 = .delayed n request ∧
        (start m metadata body' now r).1 = .delayed n request' ∧
        blockOutcome metadata request' = blockOutcome metadata request := by
  cases m with
  | echo => exact Or.inl (answer_of_alike _ echo_plain h.symm)
  | expand => exact Or.inl rfl
  | collect => exact Or.inl rfl
  | chat => exact Or.inl rfl
  | pagedExpand => exact Or.inl (congrArg (fun b => (start .pagedExpand metadata b now r).1) h.symm)
  | pagedExpandLegacy =>
    exact Or.inl (congrArg (fun b => (start .pagedExpandLegacy metadata b now r).1) h.symm)
  | getOperation =>
    exact Or.inl (congrArg (fun b => (start .getOperation metadata b now r).1) h.symm)
  | wait =>
    left
    rcases cases_of_map_eq h with ⟨s, hs, hs'⟩ | ⟨a, b, ha, hb, hab⟩
    · simp only [start, hs, hs']
    · have hdone : a.plain.doneAt now = b.plain.doneAt now :=
        congrArg (WaitRequest.doneAt · now) hab
      have hoperation : (r.wait b now).1 = (r.wait a now).1 := by
        show PendingOperation.snapshot ⟨b.doneAt now, b⟩ _ now =
          PendingOperation.snapshot ⟨a.doneAt now, a⟩ _ now
        rw [← b.snapshot_plain, ← a.snapshot_plain, hab]
        exact congrArg (PendingOperation.snapshot ⟨·, b.plain⟩ _ now) hdone.symm
      simp only [start, ha, hb, wait, hoperation]
  | block =>
    rcases cases_of_map_eq h with ⟨s, hs, hs'⟩ | ⟨a, b, ha, hb, hab⟩
    · exact Or.inl (by simp only [start, hs, hs'])
    · have hdelay : a.plain.responseDelay = b.plain.responseDelay :=
        congrArg BlockRequest.responseDelay hab
      have hdelay : a.responseDelay = b.responseDelay := hdelay
      have houtcome : blockOutcome metadata b = blockOutcome metadata a := by
        rw [← blockOutcome_plain b, ← hab, blockOutcome_plain a]
      by_cases hnow : b.responseDelay.toDelay = 0
      · exact Or.inl (by simp only [start, ha, hb, hdelay, hnow, if_true, houtcome])
      · refine Or.inr ⟨b.responseDelay.toDelay, a, b, ?_, ?_, houtcome⟩
        · simp only [start, ha, hdelay, hnow, if_false]
        · simp only [start, hb, hnow, if_false]

example : Alike .echo
    (.object [("content", .string "hi"), ("error", (Status.of .ok "no").toJson)])
    (.object [("content", .string "hi")]) := rfl

/-- Streams of requests that agree item by item but for statuses that ask for nothing. -/
def AlikeItems : List (Except Status EchoRequest) → List (Except Status EchoRequest) → Prop :=
  List.Forall₂ fun x y => x.map EchoRequest.plain = y.map EchoRequest.plain

theorem collect_of_alike {items items' : List (Except Status EchoRequest)}
    (h : AlikeItems items items') : collect metadata items' = collect metadata items := by
  have hfold (contents : List String) :
      items'.foldlM (fun acc item => item.bind (collectStep acc)) contents =
        items.foldlM (fun acc item => item.bind (collectStep acc)) contents := by
    induction h generalizing contents with
    | nil => rfl
    | cons hitem _ ih =>
      rw [List.foldlM_cons, List.foldlM_cons, bind_of_alike (collectStep_plain contents) hitem]
      exact congrArg _ (funext ih)
  rw [collect, hfold, collect]

theorem chat_of_alike {items items' : List (Except Status EchoRequest)}
    (h : AlikeItems items items') : chat metadata none items' = chat metadata none items := by
  have hresponses : chatResponses none items' = chatResponses none items := by
    induction h with
    | nil => rfl
    | cons hitem _ ih =>
      rw [chatResponses, chatResponses, bind_of_alike chatStep_plain hitem, Option.map_none, ih]
  rw [chat, hresponses, chat]

end

end Service

namespace Registry

/-- The call of a registry without a status that asks for nothing. -/
def Event.plain : Event → Event
  | .wait request now => .wait request.plain now
  | e => e

def plainEntry (p : String × PendingOperation) : String × PendingOperation :=
  (p.1, { p.2 with request := p.2.request.plain })

def plain (r : Registry) : Registry := { r with operations := r.operations.map plainEntry }

theorem find?_plain (r : Registry) (name : String) : r.plain.find? name =
    (r.find? name).map fun o => { o with request := o.request.plain } := by
  unfold find? plain
  rw [List.find?_map, Option.map_map, Option.map_map]
  rfl

/-- A registry that is called without statuses that ask for nothing says the same. -/
theorem perform_plain (r : Registry) (e : Event) :
    r.plain.perform e.plain = ((r.perform e).1, (r.perform e).2.plain) := by
  cases e with
  | wait request now =>
    -- entries are put in by their names, and these are the same in both
    have hinsert (name : String) (o : PendingOperation) :
        insert (r.operations.map plainEntry) name { o with request := o.request.plain } =
          (insert r.operations name o).map plainEntry := by
      unfold insert
      rw [List.filter_map, List.map_append]
      rfl
    have hoperation := request.snapshot_plain (request.doneAt now) (nameOf r.nextId) now
    simp only [perform, Event.plain, wait]
    exact Prod.ext (congrArg Reply.started hoperation)
      (congrArg (Registry.mk · (r.nextId + 1)) (hinsert _ ⟨request.doneAt now, request⟩))
  | poll name now =>
    have hget : r.plain.get name now = r.get name now := by
      unfold get
      rw [find?_plain]
      cases r.find? name with
      | none => rfl
      | some o => exact congrArg Except.ok (o.request.snapshot_plain o.endTime name now)
    simp only [perform, Event.plain, hget]
  | cleanup retention now =>
    simp only [perform, Event.plain, cleanup]
    split
    · rfl
    · simp only [plain, List.filter_map, List.length_map]
      rfl

theorem after_plain (events : List Event) :
    after (events.map Event.plain) = (after events).plain := by
  induction events using List.reverseRecOn with
  | nil => rfl
  | append_singleton events e ih =>
    rw [List.map_append, List.map_singleton, after_snoc, after_snoc, ih, perform_plain]

theorem reply_plain (events : List Event) (e : Event) :
    reply (events.map Event.plain) e.plain = reply events e := by
  rw [reply, after_plain, perform_plain]
  rfl

/-- The call leaves the operation under `name` where it is: it is no wait that takes the name, and
no cleanup that finds the operation to have ended long enough ago. -/
def Spares (r : Registry) (name : String) (endTime : Time.Timestamp) : Event → Prop
  | .wait _ _ => nameOf r.nextId ≠ name
  | .poll _ _ => True
  | .cleanup retention now => ∀ cutoff, now.add? (-retention) = some cutoff → ¬ endTime ≤ cutoff

theorem find?_wait (r : Registry) (request : WaitRequest) (now : Time.Timestamp) :
    (r.wait request now).2.find? (nameOf r.nextId) = some ⟨request.doneAt now, request⟩ := by
  have hnone : (r.operations.filter fun p => p.1 ≠ nameOf r.nextId).find?
      (fun p => p.1 = nameOf r.nextId) = none := by
    refine List.find?_eq_none.mpr fun p hp => ?_
    simpa using (List.mem_filter.mp hp).2
  simp only [find?, wait, insert, List.find?_append, hnone]
  simp

theorem find?_perform {r : Registry} {e : Event} {name : String} {p : PendingOperation}
    (hspares : r.Spares name p.endTime e) (hp : r.find? name = some p) :
    (r.perform e).2.find? name = some p := by
  obtain ⟨⟨name', q⟩, hfind, rfl⟩ := Option.map_eq_some_iff.mp hp
  -- what is kept of the operations begins with the same one of that name
  have hkept (keep : String × PendingOperation → Bool) (hq : keep (name', q) = true) :
      (r.operations.filter keep).find? (fun x => x.1 = name) = some (name', q) := by
    obtain ⟨hname, front, back, hsplit, hfront⟩ := List.find?_eq_some_iff_append.mp hfind
    rw [hsplit, List.filter_append, List.filter_cons_of_pos hq]
    refine List.find?_eq_some_iff_append.mpr ⟨hname, _, _, rfl, fun x hx => ?_⟩
    exact hfront x (List.mem_filter.mp hx).1
  have hname : name' = name := by simpa using List.find?_some hfind
  cases e with
  | wait request now =>
    have hq := hkept (fun x => x.1 ≠ nameOf r.nextId)
      (by simpa [hname] using fun h => hspares (Eq.symm h))
    simp only [perform, wait, find?, insert, List.find?_append, hq]
    rfl
  | poll asked now => exact hp
  | cleanup retention now =>
    simp only [perform, cleanup]
    split
    · exact hp
    · rename_i cutoff hcutoff
      have hq := hkept (fun x => ¬ x.2.endTime ≤ cutoff) (by simpa using hspares cutoff hcutoff)
      simp only [find?, hq]
      rfl

/-- The operation of a wait is found until a call removes it. -/
theorem find?_after {front since : List Event} {request : WaitRequest} {started : Time.Timestamp}
    (h : ∀ before e rest, since = before ++ e :: rest →
      (after (front ++ .wait request started :: before)).Spares (nameOf (after front).nextId)
        (request.doneAt started) e) :
    (after (front ++ .wait request started :: since)).find? (nameOf (after front).nextId) =
      some ⟨request.doneAt started, request⟩ := by
  induction since using List.reverseRecOn with
  | nil =>
    rw [after_snoc]
    exact find?_wait _ request started
  | append_singleton since e ih =>
    have hsplit : front ++ .wait request started :: (since ++ [e]) =
        (front ++ .wait request started :: since) ++ [e] := by simp
    rw [hsplit, after_snoc]
    refine find?_perform (h since e [] rfl) (ih fun before x rest hsince => ?_)
    exact h before x (rest ++ [e]) (by simp [hsince])

end Registry
end EchoServer
