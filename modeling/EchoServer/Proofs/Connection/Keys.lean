import EchoServer.Proofs.Connection.Truncation
import EchoServer.Proofs.Metadata
import EchoServer.Proofs.Wire.Readable

namespace EchoServer.Metadata

open Json (Draft Place)

/-- No character is one of the 26 capitals of ASCII. -/
def LowerCase (s : String) : Prop := ∀ c ∈ s.toList, ¬ ('A' ≤ c ∧ c ≤ 'Z')

instance (s : String) : Decidable (LowerCase s) :=
  List.decidableBAll (fun c => ¬ ('A' ≤ c ∧ c ≤ 'Z')) s.toList

theorem isCapital_iff (c : Char) : ('A' ≤ c ∧ c ≤ 'Z') ↔ 65 ≤ c.toNat ∧ c.toNat ≤ 90 := Iff.rfl

theorem toLower_eq_self_iff (c : Char) : c.toLower = c ↔ ¬ ('A' ≤ c ∧ c ≤ 'Z') := by
  rw [isCapital_iff]
  constructor
  · intro h
    have hvalue := toNat_toLower c
    rw [h] at hvalue
    split at hvalue <;> omega
  · intro h
    apply Char.ext
    apply UInt32.toNat_inj.mp
    have hvalue := toNat_toLower c
    rw [if_neg h] at hvalue
    exact hvalue

theorem not_isCapital_toLower (c : Char) : ¬ ('A' ≤ c.toLower ∧ c.toLower ≤ 'Z') := by
  rw [isCapital_iff, toNat_toLower]
  split <;> omega

theorem lowerCase_lowerAscii (s : String) : LowerCase (lowerAscii s) := by
  intro c hc
  rw [lowerAscii, String.toList_ofList] at hc
  obtain ⟨d, -, rfl⟩ := List.mem_map.mp hc
  exact not_isCapital_toLower d

/-- A text is kept by the change to lower case exactly if it has no capitals. -/
theorem lowerAscii_eq_self_iff (s : String) : lowerAscii s = s ↔ LowerCase s := by
  constructor
  · intro h
    rw [← h]
    exact lowerCase_lowerAscii s
  · intro h
    have hchars : s.toList.map Char.toLower = s.toList.map id :=
      List.map_congr_left fun c hc => (toLower_eq_self_iff c).mpr (h c hc)
    rw [lowerAscii, hchars, List.map_id, String.ofList_toList]

/-- Ways to make metadata, with the pairs that were read among them. -/
inductive Made : Metadata → List (String × String) → Prop
  | empty : Made .empty []
  | ofList (pairs : List (String × String)) : Made (.ofList pairs) []
  | decoded {m : Metadata} (p : Place) (d : Draft) (h : decoder p d = .ok m) : Made m m.entries
  | called {m : Metadata} (path : String) (bytes rest : List UInt8) (n : Nat)
      (h : Wire.parse ClientFrame.decoder bytes = .ok (.complete (.call path m) n rest)) :
      Made m m.entries
  | trailed {m : Metadata} (status : Status) (bytes rest : List UInt8) (n : Nat)
      (h : Wire.parse ServerFrame.decoder bytes = .ok (.complete (.trailers status m) n rest)) :
      Made m m.entries
  | insert {m : Metadata} {read : List (String × String)} (key value : String) (h : Made m read) :
      Made (m.insert key value) read
  | echoTrailers {inbound trailers : Metadata} {read read' : List (String × String)}
      (h : Made inbound read) (h' : Made trailers read') :
      Made (inbound.echoTrailers trailers) read'

/-- All keys are without capitals. -/
def KeysLower (pairs : List (String × String)) : Prop := ∀ e ∈ pairs, LowerCase e.1

instance (pairs : List (String × String)) : Decidable (KeysLower pairs) :=
  List.decidableBAll (fun e : String × String => LowerCase e.1) pairs

theorem keysLower_append (pairs more : List (String × String)) :
    KeysLower (pairs ++ more) ↔ KeysLower pairs ∧ KeysLower more :=
  List.forall_mem_append

/-- Behind the pairs that were read, there are no capitals in keys. -/
theorem Made.exists_inserted {m : Metadata} {read : List (String × String)} (h : Made m read) :
    ∃ inserted, m.entries = read ++ inserted ∧ KeysLower inserted := by
  have hread (m : Metadata) : ∃ inserted, m.entries = m.entries ++ inserted ∧ KeysLower inserted :=
    ⟨[], (List.append_nil _).symm, fun e he => absurd he List.not_mem_nil⟩
  have hkey : LowerCase trailerKey := by decide
  induction h with
  | empty => exact hread .empty
  | ofList pairs =>
    refine ⟨(Metadata.ofList pairs).entries, rfl, ?_⟩
    intro e he
    rw [entries_ofList] at he
    obtain ⟨q, -, rfl⟩ := List.mem_map.mp he
    exact lowerCase_lowerAscii q.1
  | decoded => exact hread _
  | called => exact hread _
  | trailed => exact hread _
  | insert key value _ ih =>
    obtain ⟨inserted, hentries, hlower⟩ := ih
    refine ⟨inserted ++ [(lowerAscii key, value)], ?_, ?_⟩
    · rw [entries_insert, hentries, List.append_assoc]
    · exact (keysLower_append _ _).mpr
        ⟨hlower, List.forall_mem_singleton.mpr (lowerCase_lowerAscii key)⟩
  | @echoTrailers inbound trailers _ _ _ _ _ ih =>
    obtain ⟨inserted, hentries, hlower⟩ := ih
    refine ⟨inserted ++ (inbound.getAll trailerKey).map fun v => (trailerKey, v), ?_, ?_⟩
    · rw [entries_echoTrailers_onto, hentries, List.append_assoc]
    · refine (keysLower_append _ _).mpr ⟨hlower, ?_⟩
      intro e he
      obtain ⟨v, -, rfl⟩ := List.mem_map.mp he
      exact hkey

/-- Metadata has a capital in a key exactly if it was read with one. -/
theorem Made.keysLower_iff {m : Metadata} {read : List (String × String)} (h : Made m read) :
    KeysLower m.entries ↔ KeysLower read := by
  obtain ⟨inserted, hentries, hlower⟩ := h.exists_inserted
  rw [hentries, keysLower_append]
  exact and_iff_left hlower

/-- Any metadata can be read. -/
theorem made_entries (m : Metadata) : Made m m.entries :=
  .decoded .value _ (m.decoder_toJson .value fun horigin => by cases horigin)

theorem parse_call (path : String) (m : Metadata) (rest : List UInt8)
    (hsmall : (ClientFrame.call path m).toJson.print.length ≤ Wire.maxFrameSize) :
    Wire.parse ClientFrame.decoder (Wire.encode (ClientFrame.call path m).toJson ++ rest) =
      .ok (.complete (.call path m) (Wire.encode (ClientFrame.call path m).toJson).length rest) :=
  Wire.parse_encode ClientFrame.decoder _ _ rest hsmall
    (Connection.ofText_interrupting (Or.inr ⟨path, m, rfl⟩))

theorem parse_trailers (status : Status) (m : Metadata) (rest : List UInt8)
    (hsmall : (ServerFrame.trailers status m).toJson.print.length ≤ Wire.maxFrameSize)
    (hdepth : (ServerFrame.trailers status m).toJson.depth < 128) :
    Wire.parse ServerFrame.decoder (Wire.encode (ServerFrame.trailers status m).toJson ++ rest) =
      .ok (.complete (.trailers status.reread.canonical m)
        (Wire.encode (ServerFrame.trailers status m).toJson).length rest) := by
  rw [Wire.parse_encode_serverFrame, if_neg (Nat.not_lt.mpr hsmall), if_pos hdepth]
  rfl

/-- However metadata is made, it has no capitals in its keys exactly if the pairs that it was read
with have none. Inserting takes capitals out, and reading keeps them. -/
theorem keys_lower_iff_read_lower {m : Metadata} {read : List (String × String)}
    (h : Made m read) :
    (KeysLower m.entries ↔ KeysLower read) ∧
    (∃ inserted, m.entries = read ++ inserted ∧ KeysLower inserted) ∧
    (∀ key value,
      (m.insert key value).entries = m.entries ++ [(key, value)] ↔ LowerCase key) ∧
    (∀ (p : Place) v, p.Fits 2 → (decoder p (.ofJson v) = .ok m ↔
      v = .array (m.entries.map fun e => .array [.string e.1, .string e.2]))) ∧
    (∀ (path : String) (rest : List UInt8),
      (ClientFrame.call path m).toJson.print.length ≤ Wire.maxFrameSize →
      ∃ n, Wire.parse ClientFrame.decoder
        (Wire.encode (ClientFrame.call path m).toJson ++ rest) =
          .ok (.complete (.call path m) n rest)) ∧
    (∀ (status : Status) (rest : List UInt8),
      (ServerFrame.trailers status m).toJson.print.length ≤ Wire.maxFrameSize →
      (ServerFrame.trailers status m).toJson.depth < 128 →
      ∃ n, Wire.parse ServerFrame.decoder
        (Wire.encode (ServerFrame.trailers status m).toJson ++ rest) =
          .ok (.complete (.trailers status.reread.canonical m) n rest)) ∧
    Made m m.entries := by
  refine ⟨h.keysLower_iff, h.exists_inserted, ?_, ?_,
    fun path rest hsmall => ⟨_, parse_call path m rest hsmall⟩,
    fun status rest hsmall hdepth => ⟨_, parse_trailers status m rest hsmall hdepth⟩,
    made_entries m⟩
  · intro key value
    rw [entries_insert, List.append_cancel_left_eq, List.singleton_inj, Prod.mk.injEq,
      and_iff_left rfl, lowerAscii_eq_self_iff]
  · intro p v hfits
    refine ⟨eq_toJson_of_decoder, ?_⟩
    intro hv
    rw [hv]
    exact m.decoder_toJson p hfits

/-- Trailers that were read with a capital in a key keep it when others are echoed into them, and
the others come without, although the call that they come from was read with capitals. -/
theorem keys_lower_iff_read_lower_echoed :
    ∃ m, Made m [("X-Key", "v")] ∧ ¬ KeysLower m.entries ∧
      m.entries = [("X-Key", "v"), ("showcase-trailer", "w")] := by
  let inbound : Metadata := ⟨[("Showcase-Trailer", "w")]⟩
  let trailers : Metadata := ⟨[("X-Key", "v")]⟩
  obtain ⟨-, -, -, -, hcall, -⟩ := keys_lower_iff_read_lower (made_entries inbound)
  obtain ⟨n, hparse⟩ := hcall "/Echo" [] (by decide +kernel)
  have hechoed := Made.echoTrailers (.called _ _ _ n hparse) (made_entries trailers)
  obtain ⟨hlower, -⟩ := keys_lower_iff_read_lower hechoed
  refine ⟨_, hechoed, ?_, by decide +kernel⟩
  rw [hlower]
  decide

/-- A value with a capital in a key is read, and so the key is stored. -/
theorem read_key_keeps_capital :
    decoder .value (.ofJson (.array [.array [.string "X-Key", .string "v"]])) =
      .ok ⟨[("X-Key", "v")]⟩ ∧
    Made ⟨[("X-Key", "v")]⟩ [("X-Key", "v")] ∧ ¬ KeysLower [("X-Key", "v")] := by
  have hread : decoder .value (.ofJson (.array [.array [.string "X-Key", .string "v"]])) =
      .ok ⟨[("X-Key", "v")]⟩ := decoder_toJson ⟨[("X-Key", "v")]⟩ .value fun h => by cases h
  exact ⟨hread, .decoded .value _ hread, by decide⟩

end EchoServer.Metadata
