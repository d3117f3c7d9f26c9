import PdGuard.Config.LoaderLaws
import PdGuard.Controller.Middleware
import PdGuard.SampleProxy

/-! Authentication by the digest on file: its bytes are compared where it is in hexadecimal,
its text elsewhere, and both come to comparing its text in lower case. -/

namespace PdGuard.Loader

open Http (lowerAscii)
open String (utf8Len)

theorem digitChar_small : ∀ d < 16, hexDigit (Nat.digitChar d) = some d ∧
    lowerAscii (Nat.digitChar d) = Nat.digitChar d := by
  decide

theorem hexDigit_ascii : ∀ n < 128, ∀ d < 16,
    hexDigit (Char.ofNat n) = some d ↔ lowerAscii (Char.ofNat n) = Nat.digitChar d := by
  decide +kernel

theorem hexDigit_far {c : Char} (hc : ¬ c.toNat < 128) : hexDigit c = none ∧ lowerAscii c = c := by
  have hfar : ∀ d : Char, d.toNat < 128 → ¬ c ≤ d := fun d hd hle =>
    hc (lt_of_le_of_lt (UInt32.le_iff_toNat_le.mp hle) hd)
  constructor
  · simp [hexDigit, Unicode.isAsciiDigit, hfar '9' (by decide), hfar 'f' (by decide),
      hfar 'F' (by decide)]
  · simp [lowerAscii, hfar 'Z' (by decide)]

theorem hexDigit_iff {c : Char} {d : ℕ} (hd : d < 16) :
    hexDigit c = some d ↔ lowerAscii c = Nat.digitChar d := by
  by_cases hc : c.toNat < 128
  · have h := hexDigit_ascii c.toNat hc d hd
    rwa [Char.ofNat_toNat] at h
  · obtain ⟨hnone, hsame⟩ := hexDigit_far hc
    rw [hnone, hsame]
    refine iff_of_false (by simp) fun heq => hc ?_
    have hdigit : ∀ d < 16, (Nat.digitChar d).toNat < 128 := by decide
    exact heq ▸ hdigit d hd

theorem hexDigit_lt {c : Char} {d : ℕ} (h : hexDigit c = some d) : d < 16 := by
  by_cases hc : c.toNat < 128
  · have hall : ∀ n < 128, ∀ d ∈ hexDigit (Char.ofNat n), d < 16 := by decide +kernel
    have hd := hall c.toNat hc
    rw [Char.ofNat_toNat] at hd
    exact hd d h
  · rw [(hexDigit_far hc).1] at h
    cases h

open Crypto (hex)

theorem decodeHex_lower {s : Str} {b : Bytes} (h : decodeHex s = some b) :
    s.map lowerAscii = hex b := by
  induction s using decodeHex.induct generalizing b with
  | case1 =>
    obtain rfl := Option.some.inj h
    rfl
  | case2 c => cases h
  | case3 hi lo rest ih =>
    simp only [decodeHex, Option.bind_eq_bind, Option.bind_eq_some_iff] at h
    obtain ⟨x, hx, y, hy, bs, hbs, h⟩ := h
    obtain rfl := Option.some.inj h
    have hx16 := hexDigit_lt hx
    have hy16 := hexDigit_lt hy
    have hbyte : (UInt8.ofNat (x * 16 + y)).toNat = x * 16 + y := by
      rw [UInt8.toNat_ofNat']
      omega
    rw [hex, List.flatMap_cons, hbyte, ← hex, ← ih hbs, List.map_cons, List.map_cons,
      (hexDigit_iff hx16).mp hx, (hexDigit_iff hy16).mp hy,
      show (x * 16 + y) / 16 = x by omega, show (x * 16 + y) % 16 = y by omega]
    rfl

theorem decodeHex_of_lower {s : Str} {b : Bytes} (h : s.map lowerAscii = hex b) :
    decodeHex s = some b := by
  induction b generalizing s with
  | nil =>
    obtain rfl := List.map_eq_nil_iff.mp h
    rfl
  | cons x b ih =>
    rw [hex, List.flatMap_cons, ← hex] at h
    obtain ⟨hi, rest, rfl, hhi, hrest⟩ := List.map_eq_cons_iff.mp h
    obtain ⟨lo, rest, rfl, hlo, hrest⟩ := List.map_eq_cons_iff.mp hrest
    have hx := x.toNat_lt
    have hhi' := (hexDigit_iff (show x.toNat / 16 < 16 by omega)).mpr hhi
    have hlo' := (hexDigit_iff (show x.toNat % 16 < 16 by omega)).mpr hlo
    have hsum : x.toNat / 16 * 16 + x.toNat % 16 = x.toNat := by omega
    rw [decodeHex, hhi', hlo', ih hrest]
    simp only [Option.bind_eq_bind, Option.bind_some, Option.pure_def, hsum, UInt8.ofNat_toNat]

theorem utf8Len_hex {s : Str} {b : Bytes} (h : s.map lowerAscii = hex b) :
    utf8Len s = 2 * b.length := by
  induction b generalizing s with
  | nil =>
    obtain rfl := List.map_eq_nil_iff.mp h
    rfl
  | cons x b ih =>
    rw [hex, List.flatMap_cons, ← hex] at h
    obtain ⟨hi, rest, rfl, hhi, hrest⟩ := List.map_eq_cons_iff.mp h
    obtain ⟨lo, rest, rfl, hlo, hrest⟩ := List.map_eq_cons_iff.mp hrest
    have hx := x.toNat_lt
    have hsize : ∀ c : Char, ∀ d < 16, lowerAscii c = Nat.digitChar d → c.utf8Size = 1 := by
      intro c d hd hc
      refine Utf8.utf8Size_of_lt ?_
      by_contra hfar
      have hnone := (hexDigit_far hfar).1
      rw [(hexDigit_iff hd).mpr hc] at hnone
      cases hnone
    simp only [String.utf8Len_cons, List.length_cons, ih hrest,
      hsize hi _ (by omega) hhi, hsize lo _ (by omega) hlo]
    omega

theorem lower_hex (b : Bytes) : (hex b).map lowerAscii = hex b := by
  rw [hex, List.map_flatMap]
  refine List.flatMap_congr fun x _ => ?_
  have hx := x.toNat_lt
  simp only [List.map_cons, List.map_nil, (digitChar_small (x.toNat / 16) (by omega)).2,
    (digitChar_small (x.toNat % 16) (by omega)).2]

end PdGuard.Loader

namespace PdGuard.Middleware

open Crypto (hex sha256 sha256Hex)
open Http (lowerAscii headerStr)
open Loader (decodeHex32 resolveSecret compile)

section

variable [Crypto]

/-- A key is accepted exactly when the digest on file is its own, in letters of either case. -/
theorem keyMatches_iff (hsha : ∀ s, (sha256 s).length = 32) {cfg : CompiledConfig}
    {systemId key : String} {expected : Str}
    (hbytes : cfg.systemKeyBytes systemId = decodeHex32 expected) :
    keyMatches cfg systemId expected key = true ↔
      expected.map lowerAscii = sha256Hex key.toList := by
  have hback : expected.map lowerAscii = sha256Hex key.toList →
      decodeHex32 expected = some (sha256 key.toList) := by
    intro h
    rw [decodeHex32, Loader.utf8Len_hex h, hsha, if_neg (by simp), Loader.decodeHex_of_lower h]
  rw [keyMatches, hbytes]
  cases hdec : decodeHex32 expected with
  | none =>
    simp only [decide_eq_true_eq]
    constructor
    · intro h
      rw [← h, sha256Hex, Loader.lower_hex]
    · intro h
      rw [hback h] at hdec
      cases hdec
  | some bytes =>
    simp only [decide_eq_true_eq]
    constructor
    · intro h
      rw [decodeHex32] at hdec
      split at hdec
      · cases hdec
      · rw [Loader.decodeHex_lower hdec, ← h, sha256Hex]
    · intro h
      rw [hback h] at hdec
      exact Option.some.inj hdec

omit [Crypto] in
theorem compile_keys [Unicode] {host : Host} {cfg : Config} {c : CompiledConfig}
    (h : compile host cfg = .ok c) :
    c.raw = cfg ∧ c.systemKeys = Loader.systemKey host cfg ∧
      c.systemKeyBytes = fun id => (Loader.systemKey host cfg id).bind decodeHex32 := by
  simp only [compile, Loader.bind_eq_ok] at h
  obtain ⟨-, -, -, -, -, -, set, -, names, -, persons, -, offices, -, phones, -, countries, -,
    cities, -, authorities, -, key, -, token, -, -, -, h⟩ := h
  obtain rfl := Except.ok.inj h
  exact ⟨rfl, rfl, rfl⟩

structure Proves [Unicode] (host : Host) (cfg : Config) (headers : Headers)
    (systemId : String) (key : String) (digest : Str) : Prop where
  named : headerStr headers cfg.security.systemIdHeader = some systemId
  keyed : headerStr headers cfg.security.authHeader = some key
  onFile : ∃ system, cfg.systems.lookup systemId = some system ∧
    resolveSecret host system.keySha256 = .ok digest
  digest : digest.map lowerAscii = sha256Hex key.toList

omit [Crypto] in
theorem systemKey_eq_some [Unicode] {host : Host} {cfg : Config} {systemId : String}
    {digest : Str} :
    Loader.systemKey host cfg systemId = some digest ↔ ∃ system,
      cfg.systems.lookup systemId = some system ∧
        resolveSecret host system.keySha256 = .ok digest := by
  rw [Loader.systemKey, Option.bind_eq_some_iff]
  refine exists_congr fun system => and_congr_right fun _ => ?_
  cases resolveSecret host system.keySha256 <;> simp [Except.toOption]

theorem authenticate_ok_iff {c : CompiledConfig} {headers : Headers} {newRequestId : String}
    {ctx : RequestCtx} :
    authenticate c headers newRequestId = .ok ctx ↔ ∃ key expected,
      headerStr headers c.raw.security.systemIdHeader = some ctx.systemId ∧
        headerStr headers c.raw.security.authHeader = some key ∧
          c.systemKeys ctx.systemId = some expected ∧
            keyMatches c ctx.systemId expected key = true ∧
              ctx.requestId = (headerStr headers "x-request-id").getD newRequestId := by
  obtain ⟨requestId, systemId⟩ := ctx
  unfold authenticate
  constructor
  · intro h
    split at h
    · rename_i id key hs hk
      cases hd : c.systemKeys id with
      | none => rw [hd] at h; cases h
      | some expected =>
        simp only [hd] at h
        split at h
        · rename_i hm
          obtain ⟨rfl, rfl⟩ := RequestCtx.mk.inj (Except.ok.inj h)
          exact ⟨key, expected, hs, hk, hd, hm, rfl⟩
        · cases h
    · cases h
    · cases h
  · rintro ⟨key, expected, hs, hk, hd, hm, rfl⟩
    simp only [hs, hk, hd, hm, if_true]

theorem authenticate_missing_iff {c : CompiledConfig} {headers : Headers}
    {newRequestId : String} :
    authenticate c headers newRequestId = .error .missing ↔
      headerStr headers c.raw.security.systemIdHeader = none ∧
        headerStr headers c.raw.security.authHeader = none := by
  unfold authenticate
  cases headerStr headers c.raw.security.systemIdHeader with
  | none => cases headerStr headers c.raw.security.authHeader <;> simp
  | some systemId =>
    cases headerStr headers c.raw.security.authHeader with
    | none => simp
    | some key =>
      cases hd : c.systemKeys systemId with
      | none => simp [hd]
      | some expected =>
        simp only [hd, reduceCtorEq, false_and, iff_false]
        split <;> simp

/-- Under a configuration that loads, a request is let in as a system exactly when it names the
system and gives a key with the digest that the file has for it; one without either header is
the only one that counts as anonymous. -/
theorem authenticate_iff [Unicode] (hsha : ∀ s, (sha256 s).length = 32) {host : Host}
    {cfg : Config} {c : CompiledConfig} (h : compile host cfg = .ok c) (headers : Headers)
    (newRequestId : String) :
    (∀ ctx, authenticate c headers newRequestId = .ok ctx ↔
      ctx.requestId = (headerStr headers "x-request-id").getD newRequestId ∧
        ∃ key digest, Proves host cfg headers ctx.systemId key digest) ∧
    (authenticate c headers newRequestId = .error .missing ↔
      headerStr headers cfg.security.systemIdHeader = none ∧
        headerStr headers cfg.security.authHeader = none) := by
  obtain ⟨hraw, hkeys, hbytes⟩ := compile_keys h
  have hmatches : ∀ {systemId key digest}, Loader.systemKey host cfg systemId = some digest →
      (keyMatches c systemId digest key = true ↔
        digest.map lowerAscii = sha256Hex key.toList) := by
    intro systemId key digest hd
    refine keyMatches_iff hsha ?_
    rw [hbytes]
    simp only [hd, Option.bind_some]
  refine ⟨fun ctx => ?_, by rw [← hraw]; exact authenticate_missing_iff⟩
  rw [authenticate_ok_iff, hraw, hkeys]
  constructor
  · rintro ⟨key, digest, hs, hk, hd, hm, hid⟩
    exact ⟨hid, key, digest, hs, hk, systemKey_eq_some.mp hd, (hmatches hd).mp hm⟩
  · rintro ⟨hid, key, digest, hs, hk, hd, hm⟩
    have hd' := systemKey_eq_some.mpr hd
    exact ⟨key, digest, hs, hk, hd', (hmatches hd').mpr hm, hid⟩

end

section

def sampleDigest : Bytes :=
  [0x82, 0x54, 0xc3, 0x29, 0xa9, 0x28, 0x50, 0xf6, 0xd5, 0x39, 0xdd, 0x37, 0x6f, 0x48, 0x16, 0xee,
    0x27, 0x64, 0x51, 0x7d, 0xa5, 0xe0, 0x23, 0x55, 0x14, 0xaf, 0x43, 0x31, 0x64, 0x48, 0x0d, 0x7a]

@[reducible] def sampleCrypto : Crypto :=
  { Sample.cipher with
    sha256 := fun key => if key = ['k'] then sampleDigest else List.replicate 32 0 }

attribute [local instance] Sample.tables sampleCrypto

def sampleConfig : Config :=
  { Sample.config "mask" with
    systems := [⟨"a", { Sample.system true with
      keySha256 :=
        "8254C329A92850F6D539DD376F4816EE2764517DA5E0235514AF433164480D7A".toList }⟩].toAList }

def sampleCompiled : CompiledConfig :=
  (compile Sample.host sampleConfig).toOption.get rfl

theorem authenticate_iff_capitals :
    (∀ s, (sha256 s).length = 32) ∧ compile Sample.host sampleConfig = .ok sampleCompiled ∧
      authenticate sampleCompiled (Sample.request "a" "/" []).headers "r" = .ok ⟨"r", "a"⟩ := by
  have hsha : ∀ s, (sha256 s).length = 32 := by
    intro s
    change (if s = ['k'] then sampleDigest else List.replicate 32 0).length = 32
    split
    · rfl
    · exact List.length_replicate
  have hload : compile Sample.host sampleConfig = .ok sampleCompiled := rfl
  refine ⟨hsha, hload, ((authenticate_iff hsha hload _ "r").1 ⟨"r", "a"⟩).mpr ?_⟩
  refine ⟨by decide, "k", _, by decide, by decide, ⟨_, rfl, rfl⟩, ?_⟩
  decide

end

end PdGuard.Middleware
