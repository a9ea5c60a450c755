import EchoServer.Proofs.Settings.CommandLine
import EchoServer.Proofs.Text.Count
import EchoServer.Settings.File

namespace EchoServer.Settings

/-- What a source gives for a setting. -/
inductive Datum
  | text (t : String)
  | number (n : UInt64)
  deriving DecidableEq

inductive Setting
  | listen
  | workers
  | maxConnections
  | streamBuffer
  | operationRetention
  | cleanupInterval
  | logLevel
  deriving DecidableEq

/-- The option for a setting. -/
def Setting.flag : Setting → Flag
  | .listen => .listen
  | .workers => .workers
  | .maxConnections => .maxConnections
  | .streamBuffer => .streamBuffer
  | .operationRetention => .operationRetention
  | .cleanupInterval => .cleanupInterval
  | .logLevel => .logLevel

/-- What an option makes of a value: a path is not empty, a number fits a word. -/
def Flag.read? (flag : Flag) (value : String) : Option Datum :=
  match flag with
  | .config => if value.isEmpty then none else some (.text value)
  | .listen => some (.text value)
  | .logLevel => some (.text value)
  | .help => none
  | .version => none
  | _ => (Text.wordOf? value).map .number

/-- What an option has been given. -/
def Overrides.get? (o : Overrides) : Flag → Option Datum
  | .config => o.config.map .text
  | .listen => o.listen.map .text
  | .workers => o.workers.map .number
  | .maxConnections => o.maxConnections.map .number
  | .streamBuffer => o.streamBuffer.map .number
  | .operationRetention => o.operationRetention.map .number
  | .cleanupInterval => o.cleanupInterval.map .number
  | .logLevel => o.logLevel.map .text
  | .help => none
  | .version => none

theorem giveText_eq_ok {flag : Flag} {value : String} {held v : Option String}
    (h : giveText flag value held = .ok v) : held = none ∧ v = some value := by
  unfold giveText at h
  split at h
  · cases h
  · rename_i hheld
    exact ⟨Option.not_isSome_iff_eq_none.mp hheld, (Except.ok.inj h).symm⟩

theorem giveNumber_eq_ok {flag : Flag} {value : String} {held v : Option UInt64}
    (h : giveNumber flag value held = .ok v) :
    held = none ∧ ∃ n, Text.wordOf? value = some n ∧ v = some n := by
  unfold giveNumber at h
  rw [Text.wordOf?_eq_bind]
  split at h
  · cases h
  · rename_i hheld
    refine ⟨Option.not_isSome_iff_eq_none.mp hheld, ?_⟩
    split at h
    · rename_i n hcount
      split at h
      · rename_i hfits
        rw [hcount]
        exact ⟨UInt64.ofNat n, if_pos hfits, (Except.ok.inj h).symm⟩
      · cases h
    · cases h

theorem givePath_eq_ok {flag : Flag} {value : String} {held v : Option String}
    (h : givePath flag value held = .ok v) :
    held = none ∧ ¬ value.isEmpty = true ∧ v = some value := by
  unfold givePath at h
  split at h
  · cases h
  · rename_i hheld
    split at h
    · cases h
    · rename_i hvalue
      exact ⟨Option.not_isSome_iff_eq_none.mp hheld, hvalue, (Except.ok.inj h).symm⟩

/-- An option is given once at most, and giving it leaves the other ones. -/
theorem get?_give {o o' : Overrides} {flag : Flag} {value : String}
    (h : o.give flag value = .ok o') :
    o.get? flag = none ∧ ∃ d, flag.read? value = some d ∧
      ∀ flag', o'.get? flag' = if flag' = flag then some d else o.get? flag' := by
  cases flag with
  | config =>
    obtain ⟨v, hv, rfl⟩ := exists_of_map_ok h
    obtain ⟨hheld, hvalue, rfl⟩ := givePath_eq_ok hv
    refine ⟨congrArg (Option.map Datum.text) hheld, .text value, if_neg hvalue, ?_⟩
    intro flag'
    cases flag' <;> rfl
  | listen =>
    obtain ⟨v, hv, rfl⟩ := exists_of_map_ok h
    obtain ⟨hheld, rfl⟩ := giveText_eq_ok hv
    refine ⟨congrArg (Option.map Datum.text) hheld, .text value, rfl, ?_⟩
    intro flag'
    cases flag' <;> rfl
  | logLevel =>
    obtain ⟨v, hv, rfl⟩ := exists_of_map_ok h
    obtain ⟨hheld, rfl⟩ := giveText_eq_ok hv
    refine ⟨congrArg (Option.map Datum.text) hheld, .text value, rfl, ?_⟩
    intro flag'
    cases flag' <;> rfl
  | help => cases h
  | version => cases h
  | _ =>
    -- the numbers
    obtain ⟨v, hv, rfl⟩ := exists_of_map_ok h
    obtain ⟨hheld, n, hn, rfl⟩ := giveNumber_eq_ok hv
    refine ⟨congrArg (Option.map Datum.number) hheld, .number n,
      congrArg (Option.map Datum.number) hn, ?_⟩
    intro flag'
    cases flag' <;> rfl

/-- What a line gives for an option. -/
def onLine? (given : List (Flag × String)) (flag : Flag) : Option Datum :=
  (given.lookup flag).bind flag.read?

/-- All options of an accepted line are given once, with a value that can be read. -/
theorem get?_giveAll {given : List (Flag × String)} {o o' : Overrides}
    (h : giveAll o given = .ok o') :
    (∀ flag, o'.get? flag = (o.get? flag).or (onLine? given flag)) ∧
      ∀ flag value, (flag, value) ∈ given →
        o.get? flag = none ∧ onLine? given flag = flag.read? value ∧
          (flag.read? value).isSome = true := by
  induction given generalizing o with
  | nil =>
    obtain rfl := Except.ok.inj h
    constructor
    · intro flag
      exact (Option.or_none).symm
    · intro flag value hmem
      cases hmem
  | cons first given ih =>
    obtain ⟨flag₁, value₁⟩ := first
    obtain ⟨o₁, hgive, hrest⟩ := (giveAll_cons_eq_ok_iff o o' flag₁ value₁ given).mp h
    obtain ⟨hnone, d, hread, hget⟩ := get?_give hgive
    obtain ⟨hall, hmore⟩ := ih hrest
    have hsame : onLine? ((flag₁, value₁) :: given) flag₁ = some d := by
      rw [onLine?, List.lookup_cons_self, Option.bind_some, hread]
    have hother {flag : Flag} (hne : flag ≠ flag₁) :
        onLine? ((flag₁, value₁) :: given) flag = onLine? given flag := by
      rw [onLine?, onLine?, List.lookup_cons, beq_eq_false_iff_ne.mpr hne]
    constructor
    · intro flag
      rw [hall flag, hget flag]
      by_cases hflag : flag = flag₁
      · rw [if_pos hflag, hflag, hsame, hnone]
        rfl
      · rw [if_neg hflag, hother hflag]
    · intro flag value hmem
      rcases List.mem_cons.mp hmem with hfirst | hmem
      · obtain ⟨rfl, rfl⟩ := Prod.mk.inj hfirst
        rw [hsame, hread]
        exact ⟨hnone, rfl, rfl⟩
      · obtain ⟨hnone₁, hvalue, hsome⟩ := hmore flag value hmem
        rw [hget flag] at hnone₁
        by_cases hflag : flag = flag₁
        · -- the first option has its value already, so it does not come again
          rw [if_pos hflag] at hnone₁
          cases hnone₁
        · rw [if_neg hflag] at hnone₁
          rw [hother hflag]
          exact ⟨hnone₁, hvalue, hsome⟩

/-- Where a file has a setting: the section, its name there, and its position if the section is an
array. -/
structure Place where
  table : String
  name : String
  position : Nat

def Setting.place : Setting → Place
  | .listen => ⟨"server", "listen", 0⟩
  | .workers => ⟨"server", "workers", 1⟩
  | .maxConnections => ⟨"server", "max_connections", 2⟩
  | .streamBuffer => ⟨"server", "stream_buffer", 3⟩
  | .operationRetention => ⟨"operations", "retention", 0⟩
  | .cleanupInterval => ⟨"operations", "cleanup_interval", 1⟩
  | .logLevel => ⟨"logging", "level", 0⟩

/-- The value that stands in a document at a place. -/
def Place.find? (p : Place) (document : List (String × Toml.Value)) : Option Toml.Value :=
  ((document.lookup p.table).bind Section.ofValue?).bind fun s => s.get? p.name p.position

/-- What a value gives for a setting: a text, or a number that is not negative. -/
def Datum.ofToml? : Toml.Value → Option Datum
  | .string t => some (.text t)
  | .integer n => if n.toInt < 0 then none else some (.number (UInt64.ofNat n.toInt.toNat))
  | _ => none

/-- What a document gives for a setting. -/
def inFile? (document : List (String × Toml.Value)) (σ : Setting) : Option Datum :=
  (σ.place.find? document).bind Datum.ofToml?

def FromFile.get? (f : FromFile) : Setting → Option Datum
  | .listen => f.listen.map .text
  | .workers => f.workers.map .number
  | .maxConnections => f.maxConnections.map .number
  | .streamBuffer => f.streamBuffer.map .number
  | .operationRetention => f.operationRetention.map .number
  | .cleanupInterval => f.cleanupInterval.map .number
  | .logLevel => f.logLevel.map .text

theorem get?_section {document : List (String × Toml.Value)} {p : Place} {s : Section}
    (h : Section.ofDocument document p.table = .ok s) :
    s.get? p.name p.position = p.find? document := by
  unfold Section.ofDocument at h
  rw [Place.find?]
  split at h
  · rename_i hnone
    obtain rfl := Except.ok.inj h
    rw [hnone]
    rfl
  · rename_i v hv
    rw [hv, Option.bind_some]
    split at h
    · rename_i s' hs
      obtain rfl := Except.ok.inj h
      rw [hs]
      rfl
    · cases h

/-- A text or a number that is read from a section is the one that stands there. -/
theorem text_eq_ok {s : Section} {name : String} {position : Nat} {v : Option String}
    (h : s.text name position = .ok v) :
    v.map Datum.text = (s.get? name position).bind Datum.ofToml? ∧
      v.isSome = (s.get? name position).isSome := by
  unfold Section.text at h
  split at h
  · rename_i hget
    obtain rfl := Except.ok.inj h
    rw [hget]
    exact ⟨rfl, rfl⟩
  · rename_i t hget
    obtain rfl := Except.ok.inj h
    rw [hget]
    exact ⟨rfl, rfl⟩
  · cases h

theorem number_eq_ok {s : Section} {name : String} {position : Nat} {v : Option UInt64}
    (h : s.number name position = .ok v) :
    v.map Datum.number = (s.get? name position).bind Datum.ofToml? ∧
      v.isSome = (s.get? name position).isSome := by
  unfold Section.number at h
  split at h
  · rename_i hget
    obtain rfl := Except.ok.inj h
    rw [hget]
    exact ⟨rfl, rfl⟩
  · rename_i n hget
    split at h
    · cases h
    · rename_i hsign
      obtain rfl := Except.ok.inj h
      rw [hget]
      exact ⟨(if_neg hsign).symm, rfl⟩
  · cases h

/-- A setting that a document has is read. -/
theorem get?_ofDocument {document : List (String × Toml.Value)} {f : FromFile}
    (h : FromFile.ofDocument document = .ok f) (σ : Setting) :
    f.get? σ = inFile? document σ ∧ (f.get? σ).isSome = (σ.place.find? document).isSome := by
  have hnumber {p : Place} {s : Section} {v : Option UInt64}
      (hs : Section.ofDocument document p.table = .ok s)
      (hv : s.number p.name p.position = .ok v) :
      v.map Datum.number = (p.find? document).bind Datum.ofToml? ∧
        (v.map Datum.number).isSome = (p.find? document).isSome := by
    rw [← get?_section hs, Option.isSome_map]
    exact number_eq_ok hv
  have htext {p : Place} {s : Section} {v : Option String}
      (hs : Section.ofDocument document p.table = .ok s)
      (hv : s.text p.name p.position = .ok v) :
      v.map Datum.text = (p.find? document).bind Datum.ofToml? ∧
        (v.map Datum.text).isSome = (p.find? document).isSome := by
    rw [← get?_section hs, Option.isSome_map]
    exact text_eq_ok hv
  -- every section and every setting has been read, the array of the server to its second item
  obtain ⟨server, hserver, h⟩ := exists_of_bind_ok h
  obtain ⟨operations, hoperations, h⟩ := exists_of_bind_ok h
  obtain ⟨logging, hlogging, h⟩ := exists_of_bind_ok h
  obtain ⟨listen, hlisten, h⟩ := exists_of_bind_ok h
  obtain ⟨workers, hworkers, h⟩ := exists_of_bind_ok h
  obtain ⟨-, -, h⟩ := exists_of_bind_ok h
  obtain ⟨maxConnections, hmaxConnections, h⟩ := exists_of_bind_ok h
  obtain ⟨streamBuffer, hstreamBuffer, h⟩ := exists_of_bind_ok h
  obtain ⟨operationRetention, hoperationRetention, h⟩ := exists_of_bind_ok h
  obtain ⟨cleanupInterval, hcleanupInterval, h⟩ := exists_of_bind_ok h
  obtain ⟨logLevel, hlogLevel, h⟩ := exists_of_bind_ok h
  obtain rfl := Except.ok.inj h
  cases σ with
  | listen => exact htext (p := Setting.listen.place) hserver hlisten
  | workers => exact hnumber (p := Setting.workers.place) hserver hworkers
  | maxConnections => exact hnumber (p := Setting.maxConnections.place) hserver hmaxConnections
  | streamBuffer => exact hnumber (p := Setting.streamBuffer.place) hserver hstreamBuffer
  | operationRetention =>
    exact hnumber (p := Setting.operationRetention.place) hoperations hoperationRetention
  | cleanupInterval =>
    exact hnumber (p := Setting.cleanupInterval.place) hoperations hcleanupInterval
  | logLevel => exact htext (p := Setting.logLevel.place) hlogging hlogLevel

end EchoServer.Settings
