import EchoServer.Proofs.Settings.Sources
import EchoServer.Settings.Load

namespace EchoServer.Settings

/-- A setting as it came out; there may be no number of workers. -/
def get? (s : Settings) : Setting → Option Datum
  | .listen => some (.text s.listen)
  | .workers => s.workers.map .number
  | .maxConnections => some (.number s.maxConnections)
  | .streamBuffer => some (.number s.streamBuffer)
  | .operationRetention => some (.number s.operationRetention)
  | .cleanupInterval => some (.number s.cleanupInterval)
  | .logLevel => some (.text s.logLevel)

/-- Settings that agree one by one are the same. -/
theorem ext_get? {s s' : Settings} (h : ∀ σ, s.get? σ = s'.get? σ) : s = s' := by
  have htext {t t' : String} (h : some (Datum.text t) = some (.text t')) : t = t' :=
    Datum.text.inj (Option.some.inj h)
  have hnumber {n n' : UInt64} (h : some (Datum.number n) = some (.number n')) : n = n' :=
    Datum.number.inj (Option.some.inj h)
  have hworkers : s.workers = s'.workers :=
    Option.map_injective (fun _ _ => Datum.number.inj) (h .workers)
  cases s
  cases s'
  simp only [mk.injEq]
  exact ⟨htext (h .listen), hworkers, hnumber (h .maxConnections), hnumber (h .streamBuffer),
    hnumber (h .operationRetention), hnumber (h .cleanupInterval), htext (h .logLevel)⟩

/-- What a setting is at least. -/
def Setting.least : Setting → UInt64
  | .maxConnections => 1
  | .streamBuffer => 1
  | .cleanupInterval => 1
  | _ => 0

def Datum.raise (least : UInt64) : Datum → Datum
  | .text t => .text t
  | .number n => .number (max n least)

/-- A setting by precedence: what the command line gives, else what the file gives, else the
default. -/
def byPrecedence (given : List (Flag × String)) (document : List (String × Toml.Value))
    (σ : Setting) : Option Datum :=
  ((onLine? given σ.flag).or ((inFile? document σ).or (default.get? σ))).map
    (Datum.raise σ.least)

/-- The log level without the command line. -/
def levelInFile (document : List (String × Toml.Value)) : Datum :=
  (inFile? document .logLevel).getD (.text default.logLevel)

/-- The document that a command line has its settings from: what the file that it names spells, or
an empty one if it names no file. -/
def Configures (files : String → Except String (List UInt8)) (given : List (Flag × String))
    (document : List (String × Toml.Value)) : Prop :=
  match given.lookup .config with
  | none => document = []
  | some path => ∃ bytes text, files path = .ok bytes ∧ Text.decodeUtf8? bytes = some text ∧
      Toml.read? text = some document

theorem atLeastOne_eq (n : UInt64) : atLeastOne n = max n 1 := by
  have hmax : max n 1 = if n ≤ 1 then 1 else n := rfl
  have hone : (1 : UInt64).toNat = 1 := rfl
  rw [atLeastOne, hmax]
  simp only [UInt64.le_iff_toNat_le, ← UInt64.toNat_inj, UInt64.toNat_zero, hone]
  split
  · rw [if_pos (by omega)]
  · split
    · omega
    · rfl

theorem raise_zero (n : UInt64) : (Datum.number n).raise 0 = .number n := by
  have hmax : max n 0 = if n ≤ 0 then 0 else n := rfl
  rw [Datum.raise, hmax]
  split
  · rename_i hle
    have hzero : n = 0 := by
      rw [UInt64.le_iff_toNat_le, UInt64.toNat_zero] at hle
      rw [← UInt64.toNat_inj, UInt64.toNat_zero]
      omega
    rw [hzero]
  · rfl

theorem of_sources {α : Type} (datum : α → Datum) (raise : Datum → Datum)
    (line file : Option α) (a : α) :
    some (raise (datum ((line.or file).getD a))) =
      ((line.map datum).or ((file.map datum).or (some (datum a)))).map raise := by
  cases line with
  | some _ => rfl
  | none =>
    cases file with
    | some _ => rfl
    | none => rfl

/-- A setting is the first one that a source gives, raised; this is so for a log level too, unless
the command line gives the default one. -/
theorem get?_resolve (o : Overrides) (f : FromFile) (σ : Setting)
    (h : ¬ (σ = .logLevel ∧ o.logLevel = some default.logLevel)) :
    (resolve o f).get? σ =
      ((o.get? σ.flag).or ((f.get? σ).or (default.get? σ))).map (Datum.raise σ.least) := by
  have hlimit (line file : Option UInt64) (n : UInt64) :
      some (Datum.number (atLeastOne ((line.or file).getD n))) =
        ((line.map Datum.number).or ((file.map Datum.number).or (some (.number n)))).map
          (Datum.raise 1) := by
    rw [atLeastOne_eq]
    exact of_sources Datum.number (Datum.raise 1) line file n
  cases σ with
  | listen => exact of_sources Datum.text (Datum.raise 0) _ _ _
  | workers =>
    show (o.workers.or f.workers).map Datum.number =
      ((o.workers.map Datum.number).or ((f.workers.map Datum.number).or none)).map (Datum.raise 0)
    cases o.workers with
    | some n => exact congrArg some (raise_zero n).symm
    | none =>
      cases f.workers with
      | some n => exact congrArg some (raise_zero n).symm
      | none => rfl
  | maxConnections => exact hlimit _ _ _
  | streamBuffer => exact hlimit _ _ _
  | operationRetention =>
    show some (Datum.number _) = _
    rw [← raise_zero]
    exact of_sources Datum.number (Datum.raise 0) _ _ _
  | cleanupInterval => exact hlimit _ _ _
  | logLevel =>
    -- only the default one would have been taken for none
    have hkept : o.logLevel.filter (· ≠ default.logLevel) = o.logLevel := by
      cases hlevel : o.logLevel with
      | none => rfl
      | some level =>
        apply Option.filter_some_pos
        apply decide_eq_true
        intro hdefault
        exact h ⟨rfl, by rw [hlevel, hdefault]⟩
    show some (Datum.text (((o.logLevel.filter _).or f.logLevel).getD default.logLevel)) = _
    rw [hkept]
    exact of_sources Datum.text (Datum.raise 0) _ _ _

theorem logLevel_resolve {o : Overrides} (h : o.logLevel = some default.logLevel)
    (f : FromFile) : (resolve o f).logLevel = f.logLevel.getD default.logLevel := by
  rw [resolve, h]
  rfl

theorem get?_of_line {given : List (Flag × String)} {o : Overrides}
    (h : giveAll .empty given = .ok o) (flag : Flag) : o.get? flag = onLine? given flag := by
  rw [(get?_giveAll h).1 flag]
  cases flag <;> rfl

theorem config_of_line {given : List (Flag × String)} {o : Overrides}
    (h : giveAll .empty given = .ok o) : o.config = given.lookup .config := by
  have hconfig : o.config.map Datum.text = (given.lookup .config).bind Flag.config.read? :=
    get?_of_line h .config
  cases hlookup : given.lookup .config with
  | none =>
    rw [hlookup] at hconfig
    exact Option.map_eq_none_iff.mp hconfig
  | some path =>
    obtain ⟨before, behind, hgiven, -⟩ := List.lookup_eq_some_iff.mp hlookup
    have hmem : (Flag.config, path) ∈ given := by
      rw [hgiven]
      exact List.mem_append_right before List.mem_cons_self
    obtain ⟨-, -, hread⟩ := (get?_giveAll h).2 .config path hmem
    have htext : Flag.config.read? path = some (.text path) := by
      rw [Flag.read?] at hread ⊢
      split at hread
      · cases hread
      · rename_i hpath
        exact if_neg hpath
    rw [hlookup, Option.bind_some, htext, Option.map_eq_some_iff] at hconfig
    obtain ⟨path', hpath', htext'⟩ := hconfig
    rw [hpath', Datum.text.inj htext']

/-- The settings of an accepted line and of a document that is one of settings are the resolved
ones. -/
theorem load_eq_ok {files : String → Except String (List UInt8)} {arguments : List String}
    {given : List (Flag × String)} {o : Overrides} {document : List (String × Toml.Value)}
    {f : FromFile} (hline : Line given arguments) (hgive : giveAll .empty given = .ok o)
    (hconfigures : Configures files given document) (hf : FromFile.ofDocument document = .ok f) :
    load files arguments = .ok (resolve o f) := by
  have haccepted := (ofArguments_eq_ok_iff arguments o).mpr ⟨given, hline, hgive⟩
  rw [load, haccepted]
  dsimp only
  rw [config_of_line hgive]
  unfold Configures at hconfigures
  cases hlookup : given.lookup .config with
  | none =>
    rw [hlookup] at hconfigures
    have hdocument : document = [] := hconfigures
    rw [hdocument] at hf
    have hempty : FromFile.empty = f := Except.ok.inj hf
    rw [← hempty]
  | some path =>
    rw [hlookup] at hconfigures
    obtain ⟨bytes, text, hbytes, htext, hdocument⟩ := hconfigures
    simp only [FromFile.ofContent, hbytes, htext, hdocument, hf]

/-- How the settings of an accepted line and of a document come about, where a log level is
concerned and elsewhere. -/
theorem get?_resolve_of_line {given : List (Flag × String)} {o : Overrides}
    {document : List (String × Toml.Value)} {f : FromFile} (hgive : giveAll .empty given = .ok o)
    (hf : FromFile.ofDocument document = .ok f) (σ : Setting) :
    (resolve o f).get? σ =
      if σ = .logLevel ∧ onLine? given .logLevel = some (.text default.logLevel) then
        some (levelInFile document)
      else byPrecedence given document σ := by
  have hline := get?_of_line hgive
  have hfile := fun σ => (get?_ofDocument hf σ).1
  have hlevel : onLine? given .logLevel = some (.text default.logLevel) ↔
      o.logLevel = some default.logLevel := by
    rw [← hline .logLevel]
    exact (Option.map_injective fun _ _ => Datum.text.inj).eq_iff' rfl
  split
  · rename_i h
    obtain ⟨hσ, hinfo⟩ := h
    rw [hσ]
    show some (Datum.text (resolve o f).logLevel) = _
    rw [logLevel_resolve (hlevel.mp hinfo), levelInFile, ← hfile]
    cases hfound : f.logLevel with
    | none => simp [FromFile.get?, hfound]
    | some level => simp [FromFile.get?, hfound]
  · rename_i h
    rw [hlevel] at h
    rw [get?_resolve o f σ h, hline, hfile]
    rfl

/-- Only what the command line leaves open is looked for in the file. -/
theorem byPrecedence_congr {given : List (Flag × String)}
    {document document' : List (String × Toml.Value)} {σ : Setting}
    (h : onLine? given σ.flag = none → inFile? document' σ = inFile? document σ) :
    byPrecedence given document' σ = byPrecedence given document σ := by
  rw [byPrecedence, byPrecedence]
  cases hline : onLine? given σ.flag with
  | some d => rfl
  | none => rw [h hline]

theorem byPrecedence_of_info {given : List (Flag × String)}
    (h : onLine? given .logLevel = some (.text "info"))
    (document : List (String × Toml.Value)) :
    byPrecedence given document .logLevel = some (.text "info") := by
  have hline : onLine? given Setting.logLevel.flag = some (.text "info") := h
  rw [byPrecedence, hline]
  rfl

section
variable {given : List (Flag × String)} {o : Overrides} {f f' : FromFile}
  {document document' : List (String × Toml.Value)}

/-- Precedence is lost exactly where the file has another log level than `info`. -/
theorem get?_resolve_eq_byPrecedence_iff (hgive : giveAll .empty given = .ok o)
    (hf : FromFile.ofDocument document = .ok f) (σ : Setting) :
    (resolve o f).get? σ = byPrecedence given document σ ↔
      ¬ (σ = .logLevel ∧ onLine? given .logLevel = some (.text "info") ∧
        levelInFile document ≠ .text "info") := by
  rw [get?_resolve_of_line hgive hf]
  split
  · rename_i h
    obtain ⟨hσ, hinfo⟩ := h
    rw [hσ, byPrecedence_of_info hinfo, Option.some.injEq]
    constructor
    · intro hlevel hlost
      exact hlost.2.2 hlevel
    · intro hkept
      apply Decidable.byContradiction
      intro hlevel
      exact hkept ⟨rfl, hinfo, hlevel⟩
  · rename_i h
    constructor
    · intro _ hlost
      exact h ⟨hlost.1, hlost.2.1⟩
    · intro _
      rfl

/-- Two files that have the same for what the command line leaves open give the same settings,
unless their log levels come out. -/
theorem resolve_eq_iff (hgive : giveAll .empty given = .ok o)
    (hf : FromFile.ofDocument document = .ok f) (hf' : FromFile.ofDocument document' = .ok f')
    (hsame : ∀ σ : Setting, onLine? given σ.flag = none →
      inFile? document' σ = inFile? document σ) :
    resolve o f' = resolve o f ↔
      (onLine? given .logLevel = some (.text "info") →
        levelInFile document' = levelInFile document) := by
  have hget := get?_resolve_of_line hgive hf
  have hget' := get?_resolve_of_line hgive hf'
  constructor
  · intro hequal hinfo
    have hlevel := hget' .logLevel
    rw [hequal, hget, if_pos ⟨rfl, hinfo⟩, if_pos ⟨rfl, hinfo⟩] at hlevel
    exact (Option.some.inj hlevel).symm
  · intro hlevel
    apply ext_get?
    intro σ
    rw [hget' σ, hget σ]
    split
    · rename_i h
      rw [hlevel h.2]
    · exact byPrecedence_congr (hsame σ)

end

/-- A setting is the one of the command line, else the one of the file, else the default, raised to
what it is at least; but a log level of `info` on the command line loses against the file. -/
theorem settings_by_precedence (arguments : List String)
    (haccepted : ∃ o, Overrides.ofArguments arguments = .ok o) :
    ∃ given, Line given arguments ∧ (∀ given', Line given' arguments → given' = given) ∧
      (∀ flag value, (flag, value) ∈ given →
        onLine? given flag = flag.read? value ∧ (flag.read? value).isSome = true) ∧
      ∀ files document, Configures files given document →
        (∃ f, FromFile.ofDocument document = .ok f) →
        (∀ σ : Setting, (inFile? document σ).isSome = (σ.place.find? document).isSome) ∧
        ∃ s, load files arguments = .ok s ∧
          (∀ σ, s.get? σ = byPrecedence given document σ ↔
            ¬ (σ = .logLevel ∧ onLine? given .logLevel = some (.text "info") ∧
              levelInFile document ≠ .text "info")) ∧
          (onLine? given .logLevel = some (.text "info") →
            s.get? .logLevel = some (levelInFile document)) ∧
          ∀ files' document', Configures files' given document' →
            (∃ f, FromFile.ofDocument document' = .ok f) →
            (∀ σ : Setting, onLine? given σ.flag = none →
              inFile? document' σ = inFile? document σ) →
            (load files' arguments = .ok s ↔
              (onLine? given .logLevel = some (.text "info") →
                levelInFile document' = levelInFile document)) := by
  obtain ⟨o, ho⟩ := haccepted
  obtain ⟨given, hline, hgive⟩ := (ofArguments_eq_ok_iff arguments o).mp ho
  refine ⟨given, hline, fun given' hline' => hline.unique hline',
    fun flag value hmem => ((get?_giveAll hgive).2 flag value hmem).2, ?_⟩
  intro files document hconfigures hf
  obtain ⟨f, hf⟩ := hf
  refine ⟨fun σ => ?_, resolve o f, load_eq_ok hline hgive hconfigures hf,
    get?_resolve_eq_byPrecedence_iff hgive hf, ?_, ?_⟩
  · obtain ⟨hfile, hfound⟩ := get?_ofDocument hf σ
    rw [← hfile, hfound]
  · intro hinfo
    rw [get?_resolve_of_line hgive hf, if_pos ⟨rfl, hinfo⟩]
  · intro files' document' hconfigures' hf' hsame
    obtain ⟨f', hf'⟩ := hf'
    rw [load_eq_ok hline hgive hconfigures' hf', Except.ok.injEq]
    exact resolve_eq_iff hgive hf hf' hsame

/-- A command line that gives the log level `info` and names a file. -/
def infoLine : List String := ["--log-level", "info", "--config", "echo.toml"]

theorem line_infoLine : Line [(.logLevel, "info"), (.config, "echo.toml")] infoLine :=
  .apart rfl (.name (by decide +kernel)) (plain_of_head (by decide +kernel))
    (.apart rfl (.name (by decide +kernel)) (plain_of_head (by decide +kernel)) .done)

/-- A file with another log level. -/
def debugFile : String := "[logging]\nlevel = \"debug\"\n"

/-- The log level `info` of the command line does not come out, and it makes a difference what the
file has for it. -/
theorem info_loses_against_file :
    ∃ given document s s', Line given infoLine ∧ (Flag.logLevel, "info") ∈ given ∧
      Configures (fun _ => .ok debugFile.toUTF8.data.toList) given document ∧
      load (fun _ => .ok debugFile.toUTF8.data.toList) infoLine = .ok s ∧
      byPrecedence given document .logLevel = some (.text "info") ∧
      s.get? .logLevel = some (.text "debug") ∧
      load (fun _ => .ok []) infoLine = .ok s' ∧ s' ≠ s := by
  have hread : (Toml.read? debugFile).isSome = true := by decide +kernel
  obtain ⟨document, hdocument⟩ := Option.isSome_iff_exists.mp hread
  have hdecoded : Text.decodeUtf8? debugFile.toUTF8.data.toList = some debugFile := by
    decide +kernel
  have hdebug : (load (fun _ => .ok debugFile.toUTF8.data.toList) infoLine).toOption.map logLevel =
      some "debug" := by decide +kernel
  have hinfo : (load (fun _ => .ok []) infoLine).toOption.map logLevel = some "info" := by
    decide +kernel
  obtain ⟨s, hs, hdebug⟩ := exists_of_toOption hdebug
  obtain ⟨s', hs', hinfo⟩ := exists_of_toOption hinfo
  refine ⟨_, document, s, s', line_infoLine, by decide, ⟨_, _, rfl, hdecoded, hdocument⟩, hs, rfl,
    congrArg (some ∘ Datum.text) hdebug, hs', ?_⟩
  intro hsame
  rw [hsame, hdebug] at hinfo
  exact absurd hinfo (by decide)

/-- The address is the one of the command line, the number of connections is the one of the file,
where it is zero, and the rest are defaults. -/
theorem settings_by_precedence_three_sources :
    ∃ s, load (fun _ => .ok "[server]\nlisten = \"a:1\"\nmax_connections = 0".toUTF8.data.toList)
        ["-l=b:2", "--config=echo.toml"] = .ok s ∧
      s.get? .listen = some (.text "b:2") ∧ s.get? .maxConnections = some (.number 1) ∧
      s.get? .workers = none ∧ s.get? .logLevel = some (.text "info") := by
  let text := "[server]\nlisten = \"a:1\"\nmax_connections = 0"
  have hline : Line [(.listen, "b:2"), (.config, "echo.toml")] ["-l=b:2", "--config=echo.toml"] :=
    .attached rfl (.letterEquals (c := 'l') rfl (by decide +kernel))
      (.attached rfl (.nameEquals (by decide +kernel)) .done)
  obtain ⟨given, -, hunique, -, hsettings⟩ := settings_by_precedence _
    ⟨_, (ofArguments_eq_ok_iff _ _).mpr ⟨_, hline, rfl⟩⟩
  have hgiven := hunique _ hline
  have hdecoded : Text.decodeUtf8? text.toUTF8.data.toList = some text := by decide +kernel
  have hdocument : (Toml.read? text).map (fun d =>
      ((FromFile.ofDocument d).toOption.map FromFile.listen, inFile? d .maxConnections,
        inFile? d .workers, inFile? d .logLevel)) =
      some (some (some "a:1"), some (.number 0), none, none) := by decide +kernel
  obtain ⟨document, hread, hfacts⟩ := Option.map_eq_some_iff.mp hdocument
  simp only [Prod.mk.injEq] at hfacts
  obtain ⟨hvalid, hconnections, hworkers, hlevel⟩ := hfacts
  obtain ⟨f, hf, -⟩ := exists_of_toOption hvalid
  rw [← hgiven] at hsettings
  obtain ⟨-, s, hload, hget, -⟩ := hsettings
    (fun _ => .ok text.toUTF8.data.toList) document ⟨_, _, rfl, hdecoded, hread⟩ ⟨f, hf⟩
  have hkept (σ : Setting) : s.get? σ = byPrecedence _ document σ :=
    (hget σ).mpr fun hlost => nomatch hlost.2.1
  refine ⟨s, hload, hkept _, ?_, ?_, ?_⟩
  · rw [hkept, byPrecedence, hconnections]
    rfl
  · rw [hkept, byPrecedence, hworkers]
    rfl
  · rw [hkept, byPrecedence, hlevel]
    rfl

end EchoServer.Settings
