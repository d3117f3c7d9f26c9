import PdGuard.Service.Detect.Fio
import PdGuard.Service.GuardService

namespace PdGuard.Sample

def isUpper (c : Char) : Bool := ('A' ≤ c && c ≤ 'Z') || ('А' ≤ c && c ≤ 'Я') || c = 'Ё'

def isLower (c : Char) : Bool := ('a' ≤ c && c ≤ 'z') || ('а' ≤ c && c ≤ 'я') || c = 'ё'

def lowerChar (c : Char) : Char :=
  if c = 'Ё' then 'ё' else if isUpper c then Char.ofNat (c.toNat + 32) else c

@[reducible] def tables : Unicode where
  nfkc c := [c]
  toLowercase c := [lowerChar c]
  lower s := s.map lowerChar
  isUppercase := isUpper
  isAlphabetic c := isUpper c || isLower c
  isAlphanumeric c := isUpper c || isLower c || Unicode.isAsciiDigit c
  isWhitespace := Unicode.isAsciiWhitespace
  isDecimal := Unicode.isAsciiDigit
  isWord c := isUpper c || isLower c || Unicode.isAsciiDigit c || c = '_'

def isWideDigit (c : Char) : Bool := '０' ≤ c && c ≤ '９'

@[reducible] def wideTables : Unicode :=
  { tables with
    nfkc := fun c => if isWideDigit c then [Char.ofNat (c.toNat - 65248)] else [c]
    isAlphanumeric := fun c => tables.isAlphanumeric c || isWideDigit c
    isDecimal := fun c => Unicode.isAsciiDigit c || isWideDigit c
    isWord := fun c => tables.isWord c || isWideDigit c }

def frame (b : Bytes) : Bytes := List.replicate b.length 1 ++ 0 :: b

def unframe (b : Bytes) : Option (Bytes × Bytes) :=
  let n := (b.takeWhile (· = 1)).length
  match b.drop n with
  | 0 :: rest => if n ≤ rest.length then some (rest.take n, rest.drop n) else none
  | _ => none

theorem unframe_frame (b rest : Bytes) : unframe (frame b ++ rest) = some (b, rest) := by
  have hn : (frame b ++ rest).takeWhile (· = 1) = List.replicate b.length 1 := by
    rw [frame, List.append_assoc, List.takeWhile_append_of_pos (by simp)]
    simp
  have hd : (frame b ++ rest).drop b.length = 0 :: (b ++ rest) := by
    rw [frame, List.append_assoc, List.drop_append_of_le_length (by simp)]
    simp
  simp [unframe, hn, hd]

theorem frame_inj {a b x y : Bytes} (h : frame a ++ x = frame b ++ y) : a = b ∧ x = y := by
  have := congrArg unframe h
  rw [unframe_frame, unframe_frame] at this
  simpa using this

def charBytes (c : Char) : Bytes :=
  [UInt8.ofNat (c.toNat / 65536), UInt8.ofNat (c.toNat / 256), UInt8.ofNat c.toNat]

def charsOf : Bytes → Str
  | a :: b :: c :: rest =>
    Char.ofNat (a.toNat * 65536 + b.toNat * 256 + c.toNat) :: charsOf rest
  | _ => []

theorem charsOf_charBytes (c : Char) (rest : Bytes) :
    charsOf (charBytes c ++ rest) = c :: charsOf rest := by
  have hlt : c.toNat < 2 ^ 24 := by
    have := c.valid
    simp only [UInt32.isValidChar, Nat.isValidChar] at this
    simp only [Char.toNat]
    omega
  have hsum : c.toNat / 65536 % 256 * 65536 + c.toNat / 256 % 256 * 256 + c.toNat % 256 =
      c.toNat := by
    omega
  simp [charBytes, charsOf, hsum]

def strBytes (s : Str) : Bytes := s.flatMap charBytes

theorem charsOf_strBytes (s : Str) : charsOf (strBytes s) = s := by
  induction s with
  | nil => rfl
  | cons c s ih => rw [strBytes, List.flatMap_cons, charsOf_charBytes]; exact congrArg _ ih

def textBytes (s : Str) : Bytes := frame (strBytes s)

def text (b : Bytes) : Option (Str × Bytes) := (unframe b).map fun (t, rest) => (charsOf t, rest)

theorem text_textBytes (s : Str) (rest : Bytes) : text (textBytes s ++ rest) = some (s, rest) := by
  simp only [text, textBytes, unframe_frame, Option.map_some, charsOf_strBytes]

theorem textBytes_inj {s t : Str} {x y : Bytes} (h : textBytes s ++ x = textBytes t ++ y) :
    s = t ∧ x = y := by
  have := congrArg text h
  rw [text_textBytes, text_textBytes] at this
  simpa using this

def header (key nonce : Bytes) (aad : String) : Bytes :=
  frame key ++ (frame nonce ++ textBytes aad.toList)

theorem header_inj {key key' nonce nonce' : Bytes} {aad aad' : String} {x y : Bytes}
    (h : header key nonce aad ++ x = header key' nonce' aad' ++ y) :
    key = key' ∧ nonce = nonce' ∧ aad = aad' ∧ x = y := by
  simp only [header, List.append_assoc] at h
  obtain ⟨hk, h⟩ := frame_inj h
  obtain ⟨hn, h⟩ := frame_inj h
  obtain ⟨ha, h⟩ := textBytes_inj h
  exact ⟨hk, hn, String.toList_inj.mp ha, h⟩

@[reducible] def cipher : Crypto where
  hkdf ikm salt info := textBytes salt.toList ++ (textBytes info.toList ++ ikm)
  aesEncrypt key nonce aad msg := some (header key nonce aad ++ msg)
  aesDecrypt key nonce aad ct :=
    if (header key nonce aad).isPrefixOf ct then some (ct.drop (header key nonce aad).length)
    else none
  hmacSha256 secret data := (strBytes data).take 4 ++ secret
  sha256 := strBytes

theorem cipher_aesDecrypt (key nonce : Bytes) (aad : String) (ct : Bytes) :
    cipher.aesDecrypt key nonce aad ct =
      if (header key nonce aad).isPrefixOf ct then some (ct.drop (header key nonce aad).length)
      else none :=
  rfl

theorem cipher_decrypt {key key' nonce nonce' : Bytes} {aad aad' : String} {msg ct out : Bytes}
    (henc : cipher.aesEncrypt key nonce aad msg = some ct)
    (hdec : cipher.aesDecrypt key' nonce' aad' ct = some out) :
    key' = key ∧ nonce' = nonce ∧ aad' = aad ∧ out = msg := by
  obtain rfl := Option.some.inj henc
  rw [cipher_aesDecrypt] at hdec
  split at hdec
  · rename_i hp
    obtain ⟨rest, hrest⟩ := List.isPrefixOf_iff_prefix.mp hp
    obtain ⟨rfl, rfl, rfl, rfl⟩ := header_inj hrest
    simpa using hdec.symm
  · cases hdec

theorem cipher_roundTrips : cipher.RoundTrips := by
  intro key nonce aad msg ct henc
  obtain rfl := Option.some.inj henc
  rw [cipher_aesDecrypt]
  simp

theorem sessionKey_inj {master : Bytes} {s t a b : String}
    (h : cipher.sessionKey master s a = cipher.sessionKey master t b) : s = t ∧ a = b := by
  obtain ⟨hs, h⟩ := textBytes_inj h
  obtain ⟨ha, -⟩ := textBytes_inj h
  exact ⟨String.toList_inj.mp hs, String.toList_inj.mp ha⟩

theorem cipher_rejects {a b : String} (hab : a ≠ b) (master : Bytes) :
    cipher.Rejects master a b := by
  intro session bytes nonce enc henc
  unfold Crypto.encryptMapping at henc
  split at henc
  · rename_i ct hct
    obtain rfl := Except.ok.inj henc
    unfold Crypto.decryptMapping
    split
    · rename_i plain hplain
      exact absurd (cipher_decrypt hct hplain).2.2.1 hab
    · exact ⟨_, rfl⟩
  · cases henc

def maskBytes : Option Str → Bytes
  | none => [0]
  | some m => 1 :: textBytes m

def mask : Bytes → Option (Option Str × Bytes)
  | 0 :: rest => some (none, rest)
  | 1 :: rest => (text rest).map fun (m, rest) => (some m, rest)
  | _ => none

def entryBytes (e : Demask.MappingEntry) : Bytes :=
  textBytes e.key ++ (textBytes e.pdType.toList ++ (textBytes e.original ++ maskBytes e.masked))

def entry (b : Bytes) : Option (Demask.MappingEntry × Bytes) := do
  let (key, b) ← text b
  let (pdType, b) ← text b
  let (original, b) ← text b
  let (masked, b) ← mask b
  return (⟨key, String.ofList pdType, original, masked⟩, b)

def entriesBytes : List Demask.MappingEntry → Bytes
  | [] => [0]
  | e :: es => 1 :: (entryBytes e ++ entriesBytes es)

def entries : ℕ → Bytes → Option (List Demask.MappingEntry × Bytes)
  | _, 0 :: rest => some ([], rest)
  | k + 1, 1 :: rest => do
    let (e, rest) ← entry rest
    let (es, rest) ← entries k rest
    return (e :: es, rest)
  | _, _ => none

theorem mask_maskBytes (m : Option Str) (rest : Bytes) :
    mask (maskBytes m ++ rest) = some (m, rest) := by
  cases m with
  | none => rfl
  | some m => simp only [maskBytes, mask, List.cons_append, text_textBytes, Option.map_some]

theorem entry_entryBytes (e : Demask.MappingEntry) (rest : Bytes) :
    entry (entryBytes e ++ rest) = some (e, rest) := by
  simp [entry, entryBytes, text_textBytes, mask_maskBytes]

theorem entries_entriesBytes (es : List Demask.MappingEntry) (k : ℕ) (rest : Bytes)
    (hk : es.length ≤ k) : entries k (entriesBytes es ++ rest) = some (es, rest) := by
  induction es generalizing k with
  | nil => cases k <;> rfl
  | cons e es ih =>
    cases k with
    | zero => simp at hk
    | succ k =>
      have hrest := ih k (by simpa using hk)
      simp [entriesBytes, entries, entry_entryBytes, hrest]

theorem length_le_entriesBytes (es : List Demask.MappingEntry) :
    es.length ≤ (entriesBytes es).length := by
  induction es with
  | nil => simp
  | cons e es ih => simp only [entriesBytes, List.length_cons, List.length_append]; omega

def mappingBytes (m : Demask.Mapping) : Bytes :=
  entriesBytes m.entries ++ (textBytes m.original ++ textBytes m.masked)

def mapping (b : Bytes) : Option Demask.Mapping := do
  let (es, b) ← entries b.length b
  let (original, b) ← text b
  let (masked, _) ← text b
  return ⟨es, original, masked⟩

theorem mapping_mappingBytes (m : Demask.Mapping) : mapping (mappingBytes m) = some m := by
  have hes := entries_entriesBytes m.entries (mappingBytes m).length
    (textBytes m.original ++ textBytes m.masked)
    ((length_le_entriesBytes _).trans (by simp [mappingBytes]))
  have hlast := text_textBytes m.masked []
  rw [List.append_nil] at hlast
  simp only [mapping, mappingBytes, Option.bind_eq_bind] at hes ⊢
  rw [hes]
  simp [text_textBytes, hlast]

@[reducible] def codec : Codec where
  toBytes m := .ok (mappingBytes m)
  fromBytes b :=
    match mapping b with
    | some m => .ok m
    | none => .error "unexpected end of file"
  base64Encode b := String.ofList (b.map fun x => Char.ofNat x.toNat)
  base64Decode s := .ok (s.toList.map fun c => UInt8.ofNat c.toNat)

theorem codec_roundTrips : codec.RoundTrips := by
  intro m b h
  obtain rfl := Except.ok.inj h
  change (match mapping (mappingBytes m) with
    | some m => Except.ok m
    | none => Except.error "unexpected end of file") = _
  rw [mapping_mappingBytes]

def settings : Settings where
  detectors := [@Detect.Fio.detector tables ["иван".toList]]
  ner := none
  filters := []
  prefilterRegexSet := none
  placeholderFormat := "[\x7blabel\x7d_\x7bn\x7d]".toList
  labels t := if t = .fio then some "ФИО".toList else none
  firstNames := ["иван".toList]
  masterKey := [7]
  vaultMode := "memory"
  deleteAfterDemask := false
  heavyTextThresholdBytes := 65536

def service : GuardService := @GuardService.start cipher settings

def policy : EffectivePolicy where
  action := .mask
  types := [.fio]
  demask := true
  ambiguousIds := .skip
  placeholderFormat := settings.placeholderFormat
  labels := settings.labels
  thresholds _ := none
  priorities _ := none
  maskKinds _ := none
  addressMode := .whole
  nerEnabled := false
  nerTypes := []
  nerOnFailure := .degrade
  maxWindowsPerRequest := 64
  triggerWords := []
  filters := []
  combination := ⟨fun _ => none, 0, []⟩

def outside : Pipeline.Outside where
  now _ := 0
  ner _ _ := .error .timeout
  nonce := [1]
  uuid := "s"
  joinError := ""
  getFault := none
  putFault := none

end PdGuard.Sample
