import EchoServer.Proofs.Service.Injected

namespace EchoServer.Service

/-- The failure that an item is: its request did not come, or asks for it. -/
def failure? : Except Status EchoRequest → Option Status
  | .error s => some s
  | .ok r => Status.failure? r.error

/-- The contents before the first failure, and how the items end. -/
def intake : List (Except Status EchoRequest) → List String × Except Status Unit
  | [] => ([], .ok ())
  | .error s :: _ => ([], .error s)
  | .ok r :: items =>
    match Status.failure? r.error with
    | some s => ([], .error s)
    | none => (r.content :: (intake items).1, (intake items).2)

section
variable {metadata : Metadata} {r : EchoRequest} {s : Status}

theorem resolve_of_failure {e : Option Status} (h : Status.failure? e = some s) :
    Status.resolve e = .error s := by
  rw [← Status.resolve_failure?, h]
  cases e with
  | none => cases h
  | some t =>
    by_cases ht : t.code.isOk
    · simp [Status.failure?, ht] at h
    · obtain rfl : t = s := by simpa [Status.failure?, ht] using h
      simp [Status.resolve, ht]

theorem resolve_of_no_failure {e : Option Status} (h : Status.failure? e = none) :
    Status.resolve e = .ok () := by
  rw [← Status.resolve_failure?, h]
  rfl

theorem foldlM_collectStep (items : List (Except Status EchoRequest)) (contents : List String) :
    items.foldlM (fun acc item => item.bind (collectStep acc)) contents =
      (intake items).2.map fun _ => contents ++ (intake items).1.filter (· ≠ "") := by
  induction items generalizing contents with
  | nil => simp [intake, Except.map, pure, Except.pure]
  | cons item items ih =>
    cases item with
    | error s => rfl
    | ok r =>
      cases hr : Status.failure? r.error with
      | some s =>
        have hstep : (Except.ok r).bind (collectStep contents) = .error s := by
          simp [Except.bind, collectStep, resolve_of_failure hr, bind]
        rw [List.foldlM_cons, hstep]
        simp only [intake, hr]
        rfl
      | none =>
        have hstep : (Except.ok r).bind (collectStep contents) =
            .ok (contents ++ [r.content].filter (· ≠ "")) := by
          by_cases hc : r.content = "" <;>
            simp [Except.bind, collectStep, resolve_of_no_failure hr, hc, bind, pure, Except.pure]
        have hsplit : (intake (.ok r :: items)).1.filter (· ≠ "") =
            [r.content].filter (· ≠ "") ++ (intake items).1.filter (· ≠ "") := by
          simp only [intake, hr]
          exact List.filter_append [r.content] _
        calc (Except.ok r :: items).foldlM (fun acc item => item.bind (collectStep acc)) contents
            = items.foldlM (fun acc item => item.bind (collectStep acc))
                (contents ++ [r.content].filter (· ≠ "")) := by
              rw [List.foldlM_cons, hstep]
              rfl
          _ = (intake items).2.map fun _ =>
                contents ++ [r.content].filter (· ≠ "") ++
                  (intake items).1.filter (· ≠ "") := ih _
          _ = _ := by
              rw [hsplit, ← List.append_assoc]
              simp only [intake, hr]

/-- `Collect` joins the contents that are not empty, or fails as its stream does. -/
theorem collect_eq (items : List (Except Status EchoRequest)) :
    collect metadata items = .of metadata
      ((intake items).2.map fun _ =>
        .ofContent (" ".intercalate ((intake items).1.filter (· ≠ "")))) := by
  rw [collect, foldlM_collectStep]
  cases (intake items).2 <;> rfl

/-- `Chat` echoes the contents, and ends as its stream does. -/
theorem chatResponses_eq (items : List (Except Status EchoRequest)) :
    chatResponses none items = ((intake items).1.map .ofContent, (intake items).2) := by
  induction items with
  | nil => rfl
  | cons item items ih =>
    cases item with
    | error s => rfl
    | ok r =>
      cases hr : Status.failure? r.error with
      | some s =>
        simp [intake, hr, chatResponses, Except.bind, chatStep, resolve_of_failure hr, bind]
      | none =>
        simp [intake, hr, chatResponses, Except.bind, chatStep, resolve_of_no_failure hr, bind,
          pure, Except.pure, ih]

/-- Requests that carry no failure are taken as they are. -/
theorem intake_of_requests (requests : List EchoRequest)
    (h : ∀ r ∈ requests, Status.failure? r.error = none) :
    intake (requests.map .ok) = (requests.map (·.content), .ok ()) := by
  induction requests with
  | nil => rfl
  | cons r requests ih =>
    obtain ⟨hr, hrest⟩ := List.forall_mem_cons.mp h
    simp [intake, hr, ih hrest]

/-- The first failure is the end, whatever stands behind it. -/
theorem intake_of_failure (requests : List EchoRequest)
    (h : ∀ r ∈ requests, Status.failure? r.error = none) {item : Except Status EchoRequest}
    (hitem : failure? item = some s) (more : List (Except Status EchoRequest)) :
    intake (requests.map .ok ++ item :: more) = (requests.map (·.content), .error s) := by
  induction requests with
  | nil =>
    cases item with
    | error t => cases hitem; rfl
    | ok r =>
      have hr : Status.failure? r.error = some s := hitem
      simp [intake, hr]
  | cons r requests ih =>
    obtain ⟨hr, hrest⟩ := List.forall_mem_cons.mp h
    simp [intake, hr, ih hrest]

/-- Items are requests that carry no failure, up to their end or up to the first failure. -/
theorem requests_or_failure (items : List (Except Status EchoRequest)) :
    ∃ requests : List EchoRequest, (∀ r ∈ requests, Status.failure? r.error = none) ∧
      (items = requests.map .ok ∨
        ∃ item s more, failure? item = some s ∧ items = requests.map .ok ++ item :: more) := by
  induction items with
  | nil => exact ⟨[], by simp, Or.inl rfl⟩
  | cons item items ih =>
    cases hitem : failure? item with
    | some s => exact ⟨[], by simp, Or.inr ⟨item, s, items, hitem, rfl⟩⟩
    | none =>
      cases item with
      | error t => cases hitem
      | ok r =>
        obtain ⟨requests, hall, hrest⟩ := ih
        refine ⟨r :: requests, List.forall_mem_cons.mpr ⟨hitem, hall⟩, ?_⟩
        rcases hrest with rfl | ⟨item, s, more, hs, rfl⟩
        · exact Or.inl rfl
        · exact Or.inr ⟨item, s, more, hs, rfl⟩

/-- A request without content that carries no failure. -/
def isBlank : Except Status EchoRequest → Bool
  | .error _ => false
  | .ok r => r.content = "" && (Status.failure? r.error).isNone

/-- Blank items leave no trace in what `Collect` makes of a stream. -/
theorem intake_filter (items : List (Except Status EchoRequest)) :
    (intake (items.filter fun item => !isBlank item)).2 = (intake items).2 ∧
      (intake (items.filter fun item => !isBlank item)).1.filter (· ≠ "") =
        (intake items).1.filter (· ≠ "") := by
  induction items with
  | nil => exact ⟨rfl, rfl⟩
  | cons item items ih =>
    cases item with
    | error s => exact ⟨rfl, rfl⟩
    | ok r =>
      have hblank : isBlank (.ok r) =
          (decide (r.content = "") && (Status.failure? r.error).isNone) := rfl
      cases hr : Status.failure? r.error with
      | some s => simp [hblank, hr, intake]
      | none =>
        -- the filter drops the item, or keeps its content in front of both
        by_cases hc : r.content = ""
        · simpa [hblank, hr, hc, intake] using ih
        · simpa [hblank, hr, hc, intake] using ih

theorem collect_of_filter_eq {items items' : List (Except Status EchoRequest)}
    (h : (items.filter fun item => !isBlank item) = items'.filter fun item => !isBlank item) :
    collect metadata items = collect metadata items' := by
  obtain ⟨hresult, hcontents⟩ := intake_filter items
  obtain ⟨hresult', hcontents'⟩ := intake_filter items'
  rw [collect_eq, collect_eq, ← hresult, ← hcontents, h, hresult', hcontents']

end
end EchoServer.Service
