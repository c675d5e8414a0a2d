import Aesmsg.Lib.Trim
import Aesmsg.Store.Digest

/-!
# The configuration of the API

`apps/api/src/boot-config.ts`, `stores/store-backend.ts`, `lib/hash-ip.ts` and `lib/trust-proxy.ts`.

## Main results

- `hashIp_of_booted`: the guard at boot is the check of every request.
- `shouldUseDbStores_of_booted`: a process in production that has booted is on Postgres and Redis.
-/

namespace Aesmsg.Api

/-- `process.env` -/
structure ProcessEnv where
  NODE_ENV : Option String
  DATABASE_URL : Option String
  REDIS_URL : Option String
  RATE_LIMIT_IP_SALT : Option String
  AESMSG_TRUST_PROXY : Option String

/-- A variable that is set, and not to the empty string. -/
def isSet (value : Option String) : Bool := value.getD "" ≠ ""

def ProcessEnv.production (env : ProcessEnv) : Bool := env.NODE_ENV = some "production"

def shouldUseDbStores (env : ProcessEnv) : Bool := isSet env.DATABASE_URL && isSet env.REDIS_URL

def missingProductionStoreVars (env : ProcessEnv) : List String :=
  if !env.production then []
  else (if isSet env.DATABASE_URL then [] else ["DATABASE_URL"]) ++
    (if isSet env.REDIS_URL then [] else ["REDIS_URL"])

def MIN_SALT_BYTES : Nat := 32

def weakSalt : String := "RATE_LIMIT_IP_SALT must be set to at least 32 bytes in production " ++
  "(refusing to hash client IPs with a weak/empty salt)"

def saltConfigError (salt : Option String) (production : Bool) : Option String :=
  if !production then none
  else if !isSet salt || (salt.getD "").utf8ByteSize < MIN_SALT_BYTES then some weakSalt
  else none

/-- What is logged before `exit(1)`, none where the process boots. -/
def assertProductionConfig (env : ProcessEnv) : Option String :=
  let missing := missingProductionStoreVars env
  if 0 < missing.length then
    some ("[aesmsg-api] refusing to boot: NODE_ENV=production requires " ++ " and ".intercalate missing ++
      " to be set (Postgres + Redis). Without " ++ (if 1 < missing.length then "them" else "it") ++
      " the API would silently run on in-memory stores and lose every link on restart. " ++
      "Set the missing variable(s), or unset NODE_ENV=production to use in-memory stores in dev.")
  else
    (saltConfigError env.RATE_LIMIT_IP_SALT env.production).map ("[aesmsg-api] refusing to boot: " ++ ·)

section Hash

-- `createHmac("sha256", salt).update(ip).digest("hex")`
variable (hmac : String → String → String)

def hashIpWith (ip salt : String) (production : Bool) : Except String String :=
  if production && salt.utf8ByteSize < MIN_SALT_BYTES then .error weakSalt
  else .ok (hmac salt ip)

def hashIp (env : ProcessEnv) (ip : String) : Except String String :=
  hashIpWith hmac ip (env.RATE_LIMIT_IP_SALT.getD "") env.production

end Hash

/-- What `trustProxy` is set to. -/
inductive TrustProxy where
  | off
  | all
  | hops (n : Nat)
  /-- Handed to `proxy-addr` as it is. -/
  | list (addresses : String)
deriving DecidableEq

def resolveTrustProxy (raw : Option String) : TrustProxy :=
  match raw with
  | none => .off
  | some raw =>
    let value := Trim.trim (fun c ↦ Trim.isSpace c.toNat) raw.toList
    let text := String.ofList value
    if value = [] ∨ text.toLower = "false" then .off
    else if text.toLower = "true" then .all
    else if value.all Char.isDigit then .hops (value.foldl (fun n c ↦ 10 * n + (c.toNat - 48)) 0)
    else .list text

section Booted

variable {hmac : String → String → String} {env : ProcessEnv}

theorem booted_iff : assertProductionConfig env = none ↔
    missingProductionStoreVars env = [] ∧
      saltConfigError env.RATE_LIMIT_IP_SALT env.production = none := by
  unfold assertProductionConfig
  dsimp only
  cases missingProductionStoreVars env with
  | nil => simp
  | cons name names => simp

/-- A process that has booted hashes every address. -/
theorem hashIp_of_booted (h : assertProductionConfig env = none) (ip : String) :
    hashIp hmac env ip = .ok (hmac (env.RATE_LIMIT_IP_SALT.getD "") ip) := by
  have hsalt := (booted_iff.mp h).2
  unfold saltConfigError at hsalt
  unfold hashIp hashIpWith
  cases hproduction : env.production with
  | false => rfl
  | true =>
    rw [hproduction] at hsalt
    have hlong : ¬(env.RATE_LIMIT_IP_SALT.getD "").utf8ByteSize < MIN_SALT_BYTES := by
      intro hshort
      simp [hshort] at hsalt
    simp [hlong]

theorem shouldUseDbStores_of_booted (h : assertProductionConfig env = none)
    (hproduction : env.production = true) : shouldUseDbStores env = true := by
  have hmissing := (booted_iff.mp h).1
  unfold missingProductionStoreVars at hmissing
  rw [hproduction] at hmissing
  unfold shouldUseDbStores
  cases hdatabase : isSet env.DATABASE_URL with
  | false =>
    rw [hdatabase] at hmissing
    cases hmissing
  | true =>
    cases hredis : isSet env.REDIS_URL with
    | false =>
      rw [hdatabase, hredis] at hmissing
      cases hmissing
    | true => rfl

end Booted

end Aesmsg.Api
