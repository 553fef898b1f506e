import CommerceCollector.Foundation.Transaction
import CommerceCollector.Ops.Schema

/-!
# The secret file of the Webshare gateways

`webshare_gateway_secrets.py`: the validation of a gateway secret, and the compare-and-swap with
which a validated secret is stored in the private file.  The file is the list of its records, in the
order in which they were first written; the text in which the records are written is left out.
-/

namespace CommerceCollector

open Relational Transaction

/-- `MAX_GENERATION`. -/
def maxGeneration : ℤ := 2147483647

/-- `MAX_PROFILES`. -/
def maxProfiles : ℕ := 256

/-- `WebshareGatewaySecret`. -/
structure WebshareGatewaySecret where
  provider : String
  logicalName : String
  generation : ℤ
  endpointId : String
  protocol : String
  host : String
  port : ℤ
  username : String
  password : String
  countries : List String
  stickySessionTtlSeconds : ℤ
  deriving DecidableEq, Repr

namespace WebshareGatewaySecret

/-- The identity of a record in the file. -/
def key (p : WebshareGatewaySecret) : String × String := (p.provider, p.logicalName)

/-- `_LOGICAL_NAME`: `[a-z0-9][a-z0-9_-]{0,63}`. -/
def validLogicalName (name : String) : Bool :=
  match name.toList with
  | [] => false
  | c :: rest =>
    (c.isLower || c.isDigit) && decide (rest.length ≤ 63) &&
      rest.all fun c => c.isLower || c.isDigit || c == '_' || c == '-'

/-- The Unicode category `Cc`. -/
def controlCharacter (c : Char) : Bool :=
  decide (c.toNat < 32) || decide (127 ≤ c.toNat ∧ c.toNat ≤ 159)

/-- `_secret_text`. -/
def secretText (value label : String) (maximum : ℕ) : Except String Unit := do
  require (0 < value.length ∧ value.length ≤ maximum)
    ("Webshare gateway secret " ++ label ++ " is invalid")
  require (value.toList.any controlCharacter = false)
    ("Webshare gateway secret " ++ label ++ " contains control characters")

/-- `_strict_integer`. -/
def strictInteger (value : ℤ) (label : String) (minimum maximum : ℤ) : Except String Unit :=
  require (minimum ≤ value ∧ value ≤ maximum) ("Webshare gateway secret " ++ label ++ " is invalid")

/-- A country is two capital letters. -/
def validCountry (country : String) : Bool :=
  country.length == 2 && country.toList.all fun c => decide ('A' ≤ c ∧ c ≤ 'Z')

/-- `_validated_profile`. -/
def validated (p : WebshareGatewaySecret) : Except String WebshareGatewaySecret := do
  require (p.provider = "webshare") "Webshare gateway secret profile identity is invalid"
  require (validLogicalName p.logicalName = true) "Webshare gateway secret logical name is invalid"
  require (p.endpointId = "webshare-residential-backbone" ∧ p.protocol = "http" ∧
    p.host = "p.webshare.io") "Webshare gateway secret endpoint is not verified"
  strictInteger p.port "port" 1 65535
  require (p.port = 80 ∨ p.port = 1080 ∨ p.port = 3128 ∨ 9999 ≤ p.port ∧ p.port ≤ 19999)
    "Webshare gateway secret port is not verified"
  strictInteger p.generation "generation" 1 maxGeneration
  secretText p.username "username" 512
  secretText p.password "password" 1024
  require (p.countries.all validCountry = true)
    "Webshare gateway secret contains an invalid country"
  require p.countries.Nodup "Webshare gateway secret countries must be unique"
  strictInteger p.stickySessionTtlSeconds "sticky session duration" 60 86400
  pure p

theorem validated_eq {p q : WebshareGatewaySecret} (h : p.validated = .ok q) :
    q = p ∧ p.provider = "webshare" ∧ 1 ≤ p.generation := by
  unfold validated strictInteger at h
  simp only [bind_eq_ok, require_eq_ok, pure_eq_ok, exists_const] at h
  obtain ⟨hprovider, -, -, -, -, hgeneration, -, -, -, -, -, -, -, -, rfl⟩ := h
  exact ⟨rfl, hprovider, hgeneration.1⟩

end WebshareGatewaySecret

/-- The records of the secret file. -/
abbrev SecretFile := List WebshareGatewaySecret

namespace SecretFile

/-- The record of a profile. -/
def record (file : SecretFile) (key : String × String) : Option WebshareGatewaySecret :=
  file.find? fun p => p.key == key

/-- The generation of a profile in the file; a profile without a record has none. -/
def generation (file : SecretFile) (name : String) : Option ℤ :=
  (file.record ("webshare", name)).map WebshareGatewaySecret.generation

/-- `profiles[candidate.key] = candidate`. -/
def assign (file : SecretFile) (candidate : WebshareGatewaySecret) : SecretFile :=
  if (file.record candidate.key).isSome then
    update (fun p => p.key == candidate.key) (fun _ => candidate) file
  else file ++ [candidate]

/-- `WebshareGatewaySecretStore.install`, but for the failures of the file system. -/
def install (file : SecretFile) (profile : WebshareGatewaySecret) (expected : Option ℤ) :
    Except String (ℤ × SecretFile) := do
  let candidate ← profile.validated
  require (∀ e ∈ expected, 1 ≤ e ∧ e ≤ maxGeneration)
    "Webshare gateway secret expected generation is invalid"
  let current := file.record candidate.key
  match expected with
  | none =>
    require (current = none ∧ candidate.generation = 1)
      "Webshare gateway secret create generation conflict"
  | some e =>
    require (current.map WebshareGatewaySecret.generation = some e ∧ e ≠ maxGeneration ∧
      candidate.generation = e + 1) "Webshare gateway secret update generation conflict"
  require (current.isSome ∨ file.length < maxProfiles)
    "Webshare gateway secret contains too many profiles"
  pure (candidate.generation, file.assign candidate)

theorem record_assign (file : SecretFile) (candidate : WebshareGatewaySecret)
    (key : String × String) :
    record (file.assign candidate) key =
      if candidate.key = key then some candidate else file.record key := by
  unfold assign
  split
  · next hsome =>
    obtain ⟨old, hold⟩ := Option.isSome_iff_exists.mp hsome
    have hkeep : ∀ p : WebshareGatewaySecret,
        (if p.key = candidate.key then candidate else p).key = p.key := by
      intro p
      split
      · next heq => exact heq.symm
      · rfl
    have hsame : update (fun p => p.key == candidate.key) (fun _ => candidate) file =
        update (fun p => p.key == candidate.key)
          (fun p => if p.key = candidate.key then candidate else p) file :=
      update_congr (fun _ _ => rfl) fun p _ hp => (if_pos (beq_iff_eq.mp hp)).symm
    rw [hsame, record, find?_update hkeep]
    by_cases hkey : candidate.key = key
    · subst hkey
      unfold record at hold
      rw [hold]
      have holdkey : old.key = candidate.key := beq_iff_eq.mp (mem_of_find? hold).2
      simp [holdkey]
    · rw [if_neg hkey]
      unfold record
      cases hfound : file.find? fun p => p.key == key with
      | none => rfl
      | some p =>
        have hpkey : p.key = key := beq_iff_eq.mp (mem_of_find? hfound).2
        have hother : p.key ≠ candidate.key := fun heq => hkey (heq.symm.trans hpkey)
        simp [hother]
  · next hnone =>
    rw [Bool.not_eq_true, Option.isSome_eq_false_iff, Option.isNone_iff_eq_none] at hnone
    unfold record at hnone ⊢
    rw [List.find?_append]
    by_cases hkey : candidate.key = key
    · subst hkey
      rw [hnone]
      simp
    · simp [hkey]

theorem generation_assign (file : SecretFile) (candidate : WebshareGatewaySecret)
    (hprovider : candidate.provider = "webshare") (name : String) :
    generation (file.assign candidate) name =
      if candidate.logicalName = name then some candidate.generation else file.generation name := by
  unfold generation
  rw [record_assign]
  by_cases hname : candidate.logicalName = name
  · have hkey : candidate.key = ("webshare", name) := Prod.ext hprovider hname
    rw [if_pos hname, if_pos hkey]
    rfl
  · have hkey : candidate.key ≠ ("webshare", name) := fun heq => hname (Prod.ext_iff.mp heq).2
    rw [if_neg hname, if_neg hkey]

theorem install_ok {file file' : SecretFile} {profile : WebshareGatewaySecret}
    {expected : Option ℤ} {generation : ℤ}
    (h : file.install profile expected = .ok (generation, file')) :
    generation = profile.generation ∧ file' = file.assign profile ∧
      profile.provider = "webshare" ∧ file.generation profile.logicalName = expected := by
  unfold install at h
  rw [bind_eq_ok] at h
  obtain ⟨candidate, hcandidate, h⟩ := h
  obtain ⟨rfl, hprovider, -⟩ := WebshareGatewaySecret.validated_eq hcandidate
  have hkey : candidate.key = ("webshare", candidate.logicalName) := Prod.ext hprovider rfl
  cases expected with
  | none =>
    simp only [bind_eq_ok, require_eq_ok, pure_eq_ok, exists_const, Prod.mk.injEq] at h
    obtain ⟨-, hcurrent, -, rfl, rfl⟩ := h
    refine ⟨rfl, rfl, hprovider, ?_⟩
    rw [SecretFile.generation, ← hkey, hcurrent.1]
    rfl
  | some e =>
    simp only [bind_eq_ok, require_eq_ok, pure_eq_ok, exists_const, Prod.mk.injEq] at h
    obtain ⟨-, hcurrent, -, rfl, rfl⟩ := h
    refine ⟨rfl, rfl, hprovider, ?_⟩
    rw [SecretFile.generation, ← hkey, hcurrent.1]

end SecretFile

end CommerceCollector
