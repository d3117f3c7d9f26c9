import PdGuard.Infra.Crypto
import PdGuard.Lib.Search

namespace PdGuard.Mask

def placeholderText (format label : Str) (n : ℕ) : Str :=
  Search.replace (Search.replace format "\x7blabel\x7d".toList label) "\x7bn\x7d".toList
    (natToStr n)

def placeholderKey (label : Str) (n : ℕ) : Str := label ++ '_' :: natToStr n

def labelOf (labels : PdType → Option Str) (t : PdType) : Str := (labels t).getD t.str

def placeholderMasker (format : Str) (labels : PdType → Option Str) : Masker where
  kind := .placeholder
  mask entity _ state :=
    let label := labelOf labels entity.pdType
    let (n, state) := state.nextNumber entity.pdType entity.canonical
    (⟨placeholderText format label n, some (placeholderKey label n)⟩, state)
  reversible := true
  keyed _ _ _ _ := rfl

def redactMasker : Masker where
  kind := .redact
  mask _ original state := (⟨List.replicate original.length '*', none⟩, state)
  reversible := false
  keyed h := Bool.noConfusion h

/-- Hides the ASCII digits except among the last characters. -/
def partialText (keepLast : ℕ) (original : Str) : Str :=
  let keep := min keepLast original.length
  let hidden := original.length - keep
  (original.take hidden).map (fun c => if Unicode.isAsciiDigit c then '*' else c) ++
    original.drop hidden

def partialMasker (keepLast : ℕ) : Masker where
  kind := .partialMask
  mask entity original state :=
    let (n, state) := state.nextNumber entity.pdType entity.canonical
    (⟨partialText keepLast original, some (entity.pdType.str ++ "_p".toList ++ natToStr n)⟩, state)
  reversible := true
  keyed _ _ _ _ := rfl

variable [Crypto]

def tokenMasker (secret : Bytes) : Masker where
  kind := .token
  mask entity _ state :=
    let token := Crypto.hmacToken secret (entity.pdType.str ++ '|' :: entity.canonical)
    let replacement := "tok_".toList ++ entity.pdType.str ++ '_' :: token
    (⟨replacement, some replacement⟩, state)
  reversible := true
  keyed _ _ _ _ := rfl

def hashMasker : Masker where
  kind := .hash
  mask entity _ state :=
    (⟨"sha256:".toList ++ Crypto.sha256Hex entity.canonical, none⟩, state)
  reversible := false
  keyed h := Bool.noConfusion h

omit [Crypto] in
/-- `u64::from_str_radix(_, 16)`: digits with a plus sign or none before them; an error if there
are no digits, on a foreign character and on overflow. -/
def fromHex (s : Str) : Option ℕ :=
  let digits := match s with
    | '+' :: digits => digits
    | _ => s
  let digit (c : Char) : Option ℕ :=
    if Unicode.isAsciiDigit c then some (c.toNat - '0'.toNat)
    else if 'a' ≤ c ∧ c ≤ 'f' then some (c.toNat - 'a'.toNat + 10)
    else if 'A' ≤ c ∧ c ≤ 'F' then some (c.toNat - 'A'.toNat + 10)
    else none
  if digits = [] then none
  else do
    let n ← digits.foldlM (fun acc c => (digit c).map (acc * 16 + ·)) 0
    if n < 2 ^ 64 then some n else none

def seed (secret : Bytes) (entity : Entity) : ℕ :=
  (fromHex (Crypto.hmacToken secret
    ("synth|".toList ++ entity.pdType.str ++ '|' :: entity.canonical))).getD 0

omit [Crypto] in
def pick (seed : ℕ) (list : List Str) : Str :=
  (list[seed % list.length]?).getD "Синтетик".toList

omit [Crypto] in
def seedDigits : ℕ → ℕ → List ℕ
  | 0, _ => []
  | k + 1, s => s % 10 :: seedDigits k (s / 10)

omit [Crypto] in
def digitsStr (ds : List ℕ) : Str := ds.map Nat.digitChar

omit [Crypto] in
def luhnSum : Bool → List ℕ → ℕ
  | _, [] => 0
  | double, d :: ds =>
    (if double then (if d * 2 > 9 then d * 2 - 9 else d * 2) else d) + luhnSum (!double) ds

omit [Crypto] in
def syntheticCard (seed : ℕ) : Str :=
  let digits := seedDigits 15 seed
  let check := (10 - luhnSum true digits.reverse % 10) % 10
  let full := digitsStr (digits ++ [check])
  Unicode.join [' '] [full.take 4, (full.drop 4).take 4, (full.drop 8).take 4, full.drop 12]

omit [Crypto] in
def syntheticPhone (seed : ℕ) : Str :=
  let digits := digitsStr ([7, 9] ++ seedDigits 10 seed)
  "+7 (".toList ++ (digits.drop 2).take 3 ++ ") ".toList ++ (digits.drop 5).take 3 ++
    '-' :: (digits.drop 8).take 2 ++ '-' :: (digits.drop 10).take 2

omit [Crypto] in
def weighted (k ds : List ℕ) : ℕ := (List.zipWith (· * ·) k ds).foldl (· + ·) 0

omit [Crypto] in
def syntheticInn (seed : ℕ) : Str :=
  let digits := seedDigits 10 seed
  let c1 := weighted [7, 2, 4, 10, 3, 5, 9, 4, 6, 8] digits % 11 % 10
  let c2 := weighted [3, 7, 2, 4, 10, 3, 5, 9, 4, 6, 8] (digits ++ [c1]) % 11 % 10
  digitsStr (digits ++ [c1, c2])

def syntheticText (secret : Bytes) (firstNames surnames : List Str) (entity : Entity) : Str :=
  let seed := seed secret entity
  if entity.pdType = .fio then
    let name := pick seed firstNames
    let surname := pick (seed / 2 ^ 8) surnames
    surname ++ ' ' :: name
  else if entity.pdType = .cardNumber then syntheticCard seed
  else if entity.pdType = .phone then syntheticPhone seed
  else if entity.pdType = .inn then syntheticInn seed
  else "synth_".toList ++ Crypto.hmacToken secret ("synth|".toList ++ entity.canonical)

def syntheticMasker (secret : Bytes) (firstNames surnames : List Str) : Masker where
  kind := .synthetic
  mask entity _ state :=
    let replacement := syntheticText secret firstNames surnames entity
    let (n, state) := state.nextNumber entity.pdType entity.canonical
    (⟨replacement, some (entity.pdType.str ++ "_s".toList ++ natToStr n)⟩, state)
  reversible := true
  keyed _ _ _ _ := rfl

omit [Crypto] in
def surnames : List Str :=
  ["Иванов", "Петров", "Сидоров", "Смирнов", "Кузнецов", "Попов", "Васильев", "Соколов",
    "Михайлов", "Новиков", "Федоров", "Морозов"].map String.toList

def maskersByKind (format : Str) (labels : PdType → Option Str) (masterKey : Bytes)
    (firstNames : List Str) : MaskKind → Option Masker
  | .placeholder => some (placeholderMasker format labels)
  | .redact => some redactMasker
  | .partialMask => some (partialMasker 4)
  | .token => some (tokenMasker masterKey)
  | .hash => some hashMasker
  | .synthetic => some (syntheticMasker masterKey firstNames surnames)

end PdGuard.Mask
