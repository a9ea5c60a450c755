import EchoServer.Json.Decoder
import EchoServer.Proofs.Json.Floats
import EchoServer.Proofs.Json.Strings
import EchoServer.Proofs.Json.Values

namespace EchoServer.Json

mutual

/-- The numbers in a value. -/
def numbers : Json → List JsonNumber
  | .number n => [n]
  | .array items => numbersItems items
  | .object members => numbersMembers members
  | _ => []

def numbersItems : List Json → List JsonNumber
  | [] => []
  | v :: rest => numbers v ++ numbersItems rest

def numbersMembers : List (String × Json) → List JsonNumber
  | [] => []
  | (_, v) :: rest => numbers v ++ numbersMembers rest

end

mutual

/-- The value with each of its numbers as it is read again. -/
def reread : Json → Json
  | .number n => .number (rereadNumber n)
  | .array items => .array (rereadItems items)
  | .object members => .object (rereadMembers members)
  | v => v

def rereadItems : List Json → List Json
  | [] => []
  | v :: rest => reread v :: rereadItems rest

def rereadMembers : List (String × Json) → List (String × Json)
  | [] => []
  | (k, v) :: rest => (k, reread v) :: rereadMembers rest

end

mutual

theorem depth_reread (v : Json) : (reread v).depth = v.depth := by
  match v with
  | .null => rfl
  | .bool b => rfl
  | .string s => rfl
  | .number n => rfl
  | .array items => rw [reread, depth, depth, depth_rereadItems items]
  | .object members => rw [reread, depth, depth, depth_rereadMembers members]

theorem depth_rereadItems (items : List Json) :
    depthItems (rereadItems items) = depthItems items := by
  match items with
  | [] => rfl
  | v :: rest => rw [rereadItems, depthItems, depthItems, depth_reread v, depth_rereadItems rest]

theorem depth_rereadMembers (members : List (String × Json)) :
    depthMembers (rereadMembers members) = depthMembers members := by
  match members with
  | [] => rfl
  | (k, v) :: rest =>
    rw [rereadMembers, depthMembers, depthMembers, depth_reread v, depth_rereadMembers rest]

end

theorem text_ne_nil (n : JsonNumber) : print (.number n) ≠ [] := by
  intro hempty
  have hread := readValue_number 0 n [] follows_nil
  rw [show utf8 (numberText n) = [] from hempty] at hread
  cases hread

theorem dropSpace_dropSpace (bs : List UInt8) : dropSpace (dropSpace bs) = dropSpace bs := by
  unfold dropSpace
  induction bs with
  | nil => rfl
  | cons b bs ih =>
    by_cases hb : isSpace b = true
    · simpa [hb] using ih
    · simp [hb]

theorem readValue_dropSpace (fuel : Nat) (bs : List UInt8) :
    readValue fuel (dropSpace bs) = readValue fuel bs := by
  cases fuel with
  | zero => rfl
  | succ fuel => rw [readValue, readValue, dropSpace_dropSpace]

/-- Where a value is read to its end, it begins with something that closes no list. -/
theorem head_of_readValue (fuel : Nat) (bs rest : List UInt8) (v : Json)
    (h : readValue fuel bs = (.ofJson v, some rest)) :
    ∃ b more, dropSpace bs = b :: more ∧ b ≠ 0x5D ∧ b ≠ 0x7D := by
  cases fuel with
  | zero => cases v <;> simp [readValue, stopped] at h
  | succ fuel =>
    cases hd : dropSpace bs with
    | nil => cases v <;> simp [readValue, hd, stopped] at h
    | cons b more =>
      refine ⟨b, more, rfl, ?_, ?_⟩
      · rintro rfl
        simp [readValue, hd, readScalar, isDigit, stopped] at h
      · rintro rfl
        simp [readValue, hd, readScalar, isDigit, stopped] at h

theorem follows_moreItems (items : List Json) (rest : List UInt8) :
    Follows (printMoreItems items ++ (utf8 [']'] ++ rest)) := by
  cases items with
  | nil => exact follows_cons 0x5D rest (by decide)
  | cons v items =>
    rw [printMoreItems, List.append_assoc, List.append_assoc]
    exact follows_cons 0x2C _ (by decide)

theorem follows_moreMembers (members : List (String × Json)) (rest : List UInt8) :
    Follows (printMoreMembers members ++ (utf8 ['\x7d'] ++ rest)) := by
  cases members with
  | nil => exact follows_cons 0x7D rest (by decide)
  | cons m members =>
    obtain ⟨k, v⟩ := m
    rw [printMoreMembers, List.append_assoc, List.append_assoc, List.append_assoc,
      List.append_assoc]
    exact follows_cons 0x2C _ (by decide)

theorem readItems_close (fuel : Nat) (acc : List Draft) (rest : List UInt8) :
    readItems (fuel + 1) acc (0x5D :: rest) = (.array acc.reverse none, some rest) := by
  simp [readItems, dropSpace, isSpace]

theorem readItems_first (fuel : Nat) (bs rest : List UInt8) (v : Json)
    (h : readValue fuel bs = (.ofJson v, some rest)) :
    readItems (fuel + 2) [] bs = readItems fuel [.ofJson v] rest := by
  obtain ⟨b, more, hd, hne, -⟩ := head_of_readValue fuel bs rest v h
  rw [← readValue_dropSpace, hd] at h
  simp [readItems, readItem, hd, hne, h]

theorem readItems_more (fuel : Nat) (acc : List Draft) (bs rest : List UInt8) (v : Json)
    (hacc : acc ≠ []) (h : readValue fuel bs = (.ofJson v, some rest)) :
    readItems (fuel + 2) acc (0x2C :: bs) = readItems fuel (.ofJson v :: acc) rest := by
  obtain ⟨b, more, hd, hne, -⟩ := head_of_readValue fuel bs rest v h
  rw [← readValue_dropSpace, hd] at h
  have hcomma : dropSpace (0x2C :: bs) = 0x2C :: bs := by simp [dropSpace, isSpace]
  simp [readItems, readItem, hcomma, hacc, hd, hne, h]

theorem readMembers_close (fuel : Nat) (acc : List (Key × Draft)) (rest : List UInt8) :
    readMembers (fuel + 1) acc (0x7D :: rest) = (.object acc.reverse none, some rest) := by
  simp [readMembers, dropSpace, isSpace]

theorem readMember_printed (fuel : Nat) (acc : List (Key × Draft)) (k : String) (v : Json)
    (bs rest : List UInt8) (h : readValue fuel bs = (.ofJson v, some rest)) :
    readMember (fuel + 1) acc (printString k ++ 0x3A :: bs) =
      readMembers fuel ((.name k, .ofJson v) :: acc) rest := by
  obtain ⟨pieces, hscan, hvalue⟩ := exists_scan_printed k (0x3A :: bs)
  have hcolon : dropSpace (0x3A :: bs) = 0x3A :: bs := by simp [dropSpace, isSpace]
  rw [printString_eq, readMember]
  simp [hscan, hvalue, hcolon, h]

theorem readMembers_first (fuel : Nat) (k : String) (v : Json) (bs rest : List UInt8)
    (h : readValue fuel bs = (.ofJson v, some rest)) :
    readMembers (fuel + 2) [] (printString k ++ 0x3A :: bs) =
      readMembers fuel [(.name k, .ofJson v)] rest := by
  have hm := readMember_printed fuel [] k v bs rest h
  rw [printString_eq] at hm ⊢
  simp [readMembers, dropSpace, isSpace, hm]

theorem readMembers_more (fuel : Nat) (acc : List (Key × Draft)) (k : String) (v : Json)
    (bs rest : List UInt8) (hacc : acc ≠ []) (h : readValue fuel bs = (.ofJson v, some rest)) :
    readMembers (fuel + 2) acc (0x2C :: (printString k ++ 0x3A :: bs)) =
      readMembers fuel ((.name k, .ofJson v) :: acc) rest := by
  have hm := readMember_printed fuel acc k v bs rest h
  rw [printString_eq] at hm ⊢
  simp [readMembers, dropSpace, isSpace, hacc, hm]

/-- An object is read member by member. -/
theorem readValue_members (fuel : Nat) (k : String) (w : Json) (members : List (String × Json))
    (rest : List UInt8)
    (hw : readValue fuel (print w ++ (printMoreMembers members ++ (utf8 ['\x7d'] ++ rest))) =
      (.ofJson (reread w), some (printMoreMembers members ++ (utf8 ['\x7d'] ++ rest))))
    (hmembers : readMembers fuel [(.name k, .ofJson (reread w))]
        (printMoreMembers members ++ (utf8 ['\x7d'] ++ rest)) =
      (.object ((.name k, .ofJson (reread w)) :: Draft.ofMembers (rereadMembers members)) none,
        some rest)) :
    readValue (fuel + 3) (print (.object ((k, w) :: members)) ++ rest) =
      (.ofJson (reread (.object ((k, w) :: members))), some rest) := by
  have hopen : readValue (fuel + 3) (0x7B :: (printString k ++ 0x3A :: (print w ++
      (printMoreMembers members ++ (utf8 ['\x7d'] ++ rest))))) =
      readMembers (fuel + 2) [] (printString k ++ 0x3A :: (print w ++
      (printMoreMembers members ++ (utf8 ['\x7d'] ++ rest)))) := by
    simp [readValue, dropSpace, isSpace]
  have hbytes : print (.object ((k, w) :: members)) ++ rest =
      0x7B :: (printString k ++ 0x3A :: (print w ++
      (printMoreMembers members ++ (utf8 ['\x7d'] ++ rest)))) := by
    simp [print, printMembers, List.append_assoc, utf8_cons, utf8_nil]
    rfl
  rw [hbytes, hopen, readMembers_first fuel k _ _ _ hw, hmembers]
  simp [reread, rereadMembers, Draft.ofJson, Draft.ofMembers]

mutual

/-- The text of a value is read as the draft of that value. Three steps for each byte are enough:
a container takes one for its bracket, and two for each part and the comma in front of it. -/
theorem readValue_print (v : Json) (fuel : Nat) (rest : List UInt8)
    (hfuel : 3 * (print v).length ≤ fuel) (hr : Follows rest) :
    readValue fuel (print v ++ rest) = (.ofJson (reread v), some rest) := by
  -- the recursion is on the value; what follows a part follows it in the text as well, so the
  -- statement is about any rest
  match v, fuel with
  | .null, fuel + 1 => rfl
  | .bool true, fuel + 1 => rfl
  | .bool false, fuel + 1 => rfl
  | .number n, 0 =>
    have hempty : print (.number n) = [] := List.length_eq_zero_iff.mp (by omega)
    exact absurd hempty (text_ne_nil n)
  | .number n, fuel + 1 => exact readValue_number fuel n rest hr
  | .string s, fuel + 1 =>
    rw [print, printString_eq]
    simp [readValue, dropSpace, isSpace, readString_printed, reread, Draft.ofJson]
  | .array [], fuel + 2 => rfl
  | .array (w :: items), fuel + 3 =>
    simp only [print, printItems, List.length_append] at hfuel
    have hb : (utf8 ['[']).length = 1 := rfl
    have he : (utf8 [']']).length = 1 := rfl
    have hw := readValue_print w fuel (printMoreItems items ++ (utf8 [']'] ++ rest)) (by omega)
      (follows_moreItems items rest)
    have hitems := readItems_print items fuel [.ofJson (reread w)] rest (by omega) (by simp)
    have hopen : readValue (fuel + 3) (0x5B :: (print w ++ (printMoreItems items ++
        (utf8 [']'] ++ rest)))) = readItems (fuel + 2) [] (print w ++ (printMoreItems items ++
        (utf8 [']'] ++ rest))) := by
      simp [readValue, dropSpace, isSpace]
    have hbytes : print (.array (w :: items)) ++ rest =
        0x5B :: (print w ++ (printMoreItems items ++ (utf8 [']'] ++ rest))) := by
      simp [print, printItems, List.append_assoc, utf8_cons, utf8_nil]
      rfl
    rw [hbytes, hopen, readItems_first fuel _ _ _ hw, hitems]
    simp [reread, rereadItems, Draft.ofJson, Draft.ofItems]
  | .object [], fuel + 2 => rfl
  | .object ((k, w) :: members), fuel + 3 =>
    simp only [print, printMembers, List.length_append] at hfuel
    have hb : (utf8 ['\x7b']).length = 1 := rfl
    have he : (utf8 ['\x7d']).length = 1 := rfl
    have hw := readValue_print w fuel (printMoreMembers members ++ (utf8 ['\x7d'] ++ rest))
      (by omega) (follows_moreMembers members rest)
    have hmembers := readMembers_print members fuel [(.name k, .ofJson (reread w))] rest
      (by omega) (by simp)
    exact readValue_members fuel k w members rest hw hmembers

theorem readItems_print (items : List Json) (fuel : Nat) (acc : List Draft) (rest : List UInt8)
    (hfuel : 3 * (printMoreItems items).length + 1 ≤ fuel) (hacc : acc ≠ []) :
    readItems fuel acc (printMoreItems items ++ (utf8 [']'] ++ rest)) =
      (.array (acc.reverse ++ Draft.ofItems (rereadItems items)) none, some rest) := by
  match items, fuel with
  | [], fuel + 1 =>
    have hbytes : printMoreItems [] ++ (utf8 [']'] ++ rest) = 0x5D :: rest := rfl
    rw [hbytes, readItems_close]
    simp [rereadItems, Draft.ofItems]
  | w :: items, fuel + 2 =>
    simp only [printMoreItems, List.length_append] at hfuel
    have hcomma : (utf8 [',']).length = 1 := rfl
    have hw := readValue_print w fuel (printMoreItems items ++ (utf8 [']'] ++ rest)) (by omega)
      (follows_moreItems items rest)
    have hitems := readItems_print items fuel (.ofJson (reread w) :: acc) rest (by omega) (by simp)
    have hbytes : printMoreItems (w :: items) ++ (utf8 [']'] ++ rest) =
        0x2C :: (print w ++ (printMoreItems items ++ (utf8 [']'] ++ rest))) := by
      simp [printMoreItems, List.append_assoc, utf8_cons, utf8_nil]
      rfl
    rw [hbytes, readItems_more fuel acc _ _ _ hacc hw, hitems]
    simp [rereadItems, Draft.ofItems]

theorem readMembers_print (members : List (String × Json)) (fuel : Nat)
    (acc : List (Key × Draft)) (rest : List UInt8)
    (hfuel : 3 * (printMoreMembers members).length + 1 ≤ fuel) (hacc : acc ≠ []) :
    readMembers fuel acc (printMoreMembers members ++ (utf8 ['\x7d'] ++ rest)) =
      (.object (acc.reverse ++ Draft.ofMembers (rereadMembers members)) none, some rest) := by
  match members, fuel with
  | [], fuel + 1 =>
    have hbytes : printMoreMembers [] ++ (utf8 ['\x7d'] ++ rest) = 0x7D :: rest := rfl
    rw [hbytes, readMembers_close]
    simp [rereadMembers, Draft.ofMembers]
  | (k, w) :: members, fuel + 2 =>
    simp only [printMoreMembers, List.length_append] at hfuel
    have hcomma : (utf8 [',']).length = 1 := rfl
    have hw := readValue_print w fuel (printMoreMembers members ++ (utf8 ['\x7d'] ++ rest))
      (by omega) (follows_moreMembers members rest)
    have hmembers := readMembers_print members fuel ((.name k, .ofJson (reread w)) :: acc) rest
      (by omega) (by simp)
    have hbytes : printMoreMembers ((k, w) :: members) ++ (utf8 ['\x7d'] ++ rest) =
        0x2C :: (printString k ++ 0x3A :: (print w ++
        (printMoreMembers members ++ (utf8 ['\x7d'] ++ rest)))) := by
      simp [printMoreMembers, List.append_assoc, utf8_cons, utf8_nil]
      rfl
    rw [hbytes, readMembers_more fuel acc k _ _ _ hacc hw, hmembers]
    simp [rereadMembers, Draft.ofMembers]

end

/-- An object is read as such whatever comes behind it. -/
theorem readValue_object (members : List (String × Json)) (fuel : Nat) (rest : List UInt8)
    (hfuel : 3 * (print (.object members)).length ≤ fuel) :
    readValue fuel (print (.object members) ++ rest) =
      (.ofJson (reread (.object members)), some rest) := by
  match members, fuel with
  | [], fuel + 2 => rfl
  | (k, w) :: members, fuel + 3 =>
    simp only [print, printMembers, List.length_append] at hfuel
    have hb : (utf8 ['\x7b']).length = 1 := rfl
    have he : (utf8 ['\x7d']).length = 1 := rfl
    have hw := readValue_print w fuel (printMoreMembers members ++ (utf8 ['\x7d'] ++ rest))
      (by omega) (follows_moreMembers members rest)
    have hmembers := readMembers_print members fuel [(.name k, .ofJson (reread w))] rest
      (by omega) (by simp)
    exact readValue_members fuel k w members rest hw hmembers

theorem readDocument_print (v : Json) :
    readDocument (print v) = ⟨.ofJson (reread v), false⟩ := by
  have h := readValue_print v (3 * (print v).length + 3) [] (by omega) follows_nil
  rw [List.append_nil] at h
  rw [readDocument, h]
  rfl

theorem ofText_print {α : Type} (item : Decoder α) (v : Json) :
    Decoder.ofText item (print v) = item .text (.ofJson (reread v)) := by
  rw [Decoder.ofText, readDocument_print v]
  cases item .text (.ofJson (reread v)) with
  | error e => rfl
  | ok a => rfl

/-- What is read of an object with more text behind it is what is read of the object. -/
theorem ofText_object_append {α : Type} (item : Decoder α) (members : List (String × Json))
    (more : List UInt8) (a : α)
    (h : Decoder.ofText item (print (.object members) ++ more) = .ok a) :
    Decoder.ofText item (print (.object members)) = .ok a := by
  have hread := readValue_object members (3 * (print (.object members) ++ more).length + 3) more
    (by rw [List.length_append]; omega)
  rw [ofText_print]
  unfold Decoder.ofText readDocument at h
  simp only [hread] at h
  cases hitem : item .text (.ofJson (reread (.object members))) with
  | error e =>
    rw [hitem] at h
    cases h
  | ok b =>
    rw [hitem] at h
    simp only [bind, Except.bind] at h
    split at h
    · cases h
    · exact h

/-- All numbers of a value are integers. -/
def IntegersOnly (v : Json) : Prop := ∀ n ∈ numbers v, ∃ i, n = .integer i

mutual

theorem reread_of_integersOnly (v : Json) (h : ∀ n ∈ numbers v, ∃ i, n = .integer i) :
    reread v = v := by
  match v with
  | .null => rfl
  | .bool b => rfl
  | .string s => rfl
  | .number n =>
    obtain ⟨i, rfl⟩ := h n (by simp [numbers])
    rw [reread, rereadNumber_integer]
  | .array items => rw [reread, rereadItems_of_integersOnly items (by simpa [numbers] using h)]
  | .object members =>
    rw [reread, rereadMembers_of_integersOnly members (by simpa [numbers] using h)]

theorem rereadItems_of_integersOnly (items : List Json)
    (h : ∀ n ∈ numbersItems items, ∃ i, n = .integer i) : rereadItems items = items := by
  match items with
  | [] => rfl
  | v :: rest =>
    rw [rereadItems, reread_of_integersOnly v fun n hn => h n (by simp [numbersItems, hn]),
      rereadItems_of_integersOnly rest fun n hn => h n (by simp [numbersItems, hn])]

theorem rereadMembers_of_integersOnly (members : List (String × Json))
    (h : ∀ n ∈ numbersMembers members, ∃ i, n = .integer i) : rereadMembers members = members := by
  match members with
  | [] => rfl
  | (k, v) :: rest =>
    rw [rereadMembers, reread_of_integersOnly v fun n hn => h n (by simp [numbersMembers, hn]),
      rereadMembers_of_integersOnly rest fun n hn => h n (by simp [numbersMembers, hn])]

end

/-- The numbers of a value do not matter for the order of its keys. -/
theorem rereadMembers_insertMember (key : String) (value : Json) (members : List (String × Json)) :
    rereadMembers (insertMember key value members) =
      insertMember key (reread value) (rereadMembers members) := by
  induction members with
  | nil => rfl
  | cons first rest ih =>
    obtain ⟨k, v⟩ := first
    simp only [insertMember, rereadMembers]
    split
    · rfl
    · split
      · rfl
      · rw [rereadMembers, ih]

theorem reread_ofMembers (members : List (String × Json)) :
    reread (ofMembers members) = ofMembers (rereadMembers members) := by
  have hfold (acc : List (String × Json)) :
      rereadMembers (members.foldl (fun acc m => insertMember m.1 m.2 acc) acc) =
        (rereadMembers members).foldl (fun acc m => insertMember m.1 m.2 acc)
          (rereadMembers acc) := by
    induction members generalizing acc with
    | nil => rfl
    | cons first rest ih =>
      rw [List.foldl_cons, ih, rereadMembers_insertMember]
      rfl
  rw [ofMembers, reread, hfold]
  rfl

mutual

theorem canonical_reread (v : Json) : (reread v).canonical = reread v.canonical := by
  match v with
  | .null => rfl
  | .bool b => rfl
  | .string s => rfl
  | .number n => rfl
  | .array items =>
    rw [reread, canonical, canonical, reread, canonicalItems_rereadItems items]
  | .object members =>
    rw [reread, canonical, canonical, reread_ofMembers, canonicalMembers_rereadMembers members]

theorem canonicalItems_rereadItems (items : List Json) :
    canonicalItems (rereadItems items) = rereadItems (canonicalItems items) := by
  match items with
  | [] => rfl
  | v :: rest =>
    rw [rereadItems, canonicalItems, canonicalItems, rereadItems, canonical_reread v,
      canonicalItems_rereadItems rest]

theorem canonicalMembers_rereadMembers (members : List (String × Json)) :
    canonicalMembers (rereadMembers members) = rereadMembers (canonicalMembers members) := by
  match members with
  | [] => rfl
  | (k, v) :: rest =>
    rw [rereadMembers, canonicalMembers, canonicalMembers, rereadMembers, canonical_reread v,
      canonicalMembers_rereadMembers rest]

end

end EchoServer.Json
