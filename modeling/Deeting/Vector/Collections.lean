import Deeting.Stream.Accumulator
import Deeting.Uuid
import Mathlib.Data.Int.Notation

/-! The names of the collections of users, by `QDRANT_KB_USER_COLLECTION_STRATEGY`. -/
namespace Deeting.Vector

structure CollectionSettings where
  /-- `QDRANT_KB_USER_COLLECTION`. -/
  userCollection : String := "user_memory"
  /-- `QDRANT_KB_USER_COLLECTION_STRATEGY`. -/
  strategy : String := "per_user"
  /-- `QDRANT_KB_USER_SHARED_COLLECTION`. -/
  sharedCollection : String := "kb_shared_v1"
  /-- `QDRANT_KB_USER_COLLECTION_SHARDS`. -/
  shards : ℤ := 16

/-- `str.lower`, and the hexadecimal digest of a text in UTF-8. -/
structure Hashing where
  lower : String → String
  sha1 : String → String

def strip (text : String) : String := String.ofList (Stream.strip text.toList)

/-- `text or default`. -/
def orDefault (text default : String) : String := if text = "" then default else text

def given (argument : Option String) : Option String := argument.filter fun text => text ≠ ""

def stableShortHash (hashing : Hashing) (value : String) : String :=
  let raw := hashing.lower (strip value)
  if raw = "" then "unknown" else String.ofList ((hashing.sha1 raw).toList.take 12)

/-- `f"{n:04d}"`. -/
def fourDigits (n : ℕ) : String :=
  String.ofList (List.replicate (4 - (toString n).length) '0') ++ toString n

namespace CollectionSettings

variable (settings : CollectionSettings)

def namePrefix : String :=
  orDefault (strip (orDefault settings.userCollection "user_memory")) "user_memory"

def strategyName (hashing : Hashing) : String :=
  hashing.lower (strip (orDefault settings.strategy "per_user"))

end CollectionSettings

/-- The name, or the text of the `ValueError`. -/
def getUserMemoryCollectionName (settings : CollectionSettings) (hashing : Hashing) (userId : Uuid)
    (embeddingModel : Option String) : Except String String :=
  let strategy := settings.strategyName hashing
  if strategy = "shared" then
    .ok (orDefault (strip (orDefault settings.sharedCollection "kb_shared_v1")) "kb_shared_v1")
  else if strategy = "sharded_by_model" then
    let shards := if settings.shards = 0 then 16 else settings.shards
    if shards ≤ 0 then .error "qdrant_kb_user_collection_shards must be positive"
    else
      let model := strip (embeddingModel.getD "")
      if model = "" then .error "embedding_model is required when strategy=sharded_by_model"
      else
        .ok (settings.namePrefix ++ "_" ++ stableShortHash hashing model ++ "_shard_" ++
          fourDigits (userId.int % shards.toNat))
  else .ok (settings.namePrefix ++ "_" ++ userId.hex)

end Deeting.Vector
