import Imy.Auth.Logic
import Imy.Lib.Statements
set_option autoImplicit false

/-!
The calls of `internal/logic/friend`, with the tables `friend` and `friend_verify` of
`schema/db.sql`. Nothing deletes a row of these tables. The database may fail on any
statement; such a statement does nothing.
-/

namespace Imy.Friends
open Imy.Lib
open Imy.Auth (User DBError)

structure Friend where
  id : Nat
  sendUUID : String
  revUUID : String
  sendNotice : String
  revNotice : String
  source : Int8
  deriving DecidableEq, Repr

structure FriendVerify where
  id : Nat
  sendUUID : String
  revUUID : String
  sendStatus : Int8
  revStatus : Int8
  message : String
  source : Int8
  deriving DecidableEq, Repr

inductive FriendErr where
  | invalidParam
  | friendAlreadyExist
  | dataQueryFail (e : DBError)
  | dataCreateFail (e : DBError)
  | dataModifyFail (e : DBError)
  | transaction (e : DBError)
  deriving DecidableEq, Repr

structure FriendTables where
  users : List User
  friends : List Friend
  nextFriend : Nat
  verifies : List FriendVerify
  nextVerify : Nat

abbrev FriendServer := Server FriendTables

abbrev FriendM := EStateM FriendErr FriendServer

section Statements
variable (fails : Nat → Bool) {α : Type}

def taken (rows : List α) (p : α → Bool) : Except DBError α :=
  match rows.find? p with
  | some row => .ok row
  | none => .error .recordNotFound

def take (rows : FriendTables → List α) (p : α → Bool) : FriendM (Except DBError α) :=
  statement fails (.error .failed) fun db => (taken (rows db) p,db)

def findFriends (p : Friend → Bool) : FriendM (Except DBError (List Friend)) :=
  statement fails (.error .failed) fun db => (.ok (db.friends.filter p),db)

def FriendTables.addFriend (db : FriendTables) (row : Friend) : FriendTables :=
  { db with
    friends := db.friends ++ [{ row with id := db.nextFriend }], nextFriend := db.nextFriend+1 }

def FriendTables.addVerify (db : FriendTables) (row : FriendVerify) : FriendTables :=
  { db with
    verifies := db.verifies ++ [{ row with id := db.nextVerify }], nextVerify := db.nextVerify+1 }

def FriendVerify.decided (id : Nat) (status : Int8) (v : FriendVerify) : FriendVerify :=
  if v.id = id then { v with revStatus := status } else v

def FriendTables.setRevStatus (db : FriendTables) (id : Nat) (status : Int8) : FriendTables :=
  { db with verifies := db.verifies.map (FriendVerify.decided id status) }

def createFriend (row : Friend) : FriendM (Except DBError Unit) :=
  statement fails (.error .failed) fun db => (.ok (),db.addFriend row)

def createVerify (row : FriendVerify) : FriendM (Except DBError Unit) :=
  statement fails (.error .failed) fun db => (.ok (),db.addVerify row)

def updateRevStatus (id : Nat) (status : Int8) : FriendM (Except DBError Unit) :=
  statement fails (.error .failed) fun db => (.ok (),db.setRevStatus id status)

end Statements

structure AddFriendReq where
  uuid : String
  revId : String
  deriving DecidableEq, Repr

def Friend.Goes (a b : String) (f : Friend) : Prop := f.sendUUID = a ∧ f.revUUID = b

instance (a b : String) (f : Friend) : Decidable (f.Goes a b) :=
  inferInstanceAs (Decidable (_ ∧ _))

def Friend.Joins (a b : String) (f : Friend) : Prop := f.Goes a b ∨ f.Goes b a

instance (a b : String) (f : Friend) : Decidable (f.Joins a b) :=
  inferInstanceAs (Decidable (_ ∨ _))

def FriendVerify.Goes (a b : String) (v : FriendVerify) : Prop := v.sendUUID = a ∧ v.revUUID = b

instance (a b : String) (v : FriendVerify) : Decidable (v.Goes a b) :=
  inferInstanceAs (Decidable (_ ∧ _))

section Calls
variable (fails : Nat → Bool)

def requestOf (req : AddFriendReq) : FriendVerify := ⟨0,req.uuid,req.revId,1,1,"",1⟩

def createRequest (req : AddFriendReq) : FriendM Unit := do
  match ← createVerify fails (requestOf req) with
  | .error e => throw (.dataCreateFail e)
  | .ok _ => return ()

def requestOnce (req : AddFriendReq) : FriendM Unit := do
  match ← take fails (·.verifies) fun v => v.Goes req.uuid req.revId ∧ v.revStatus = 1 with
  | .ok _ => return ()
  | .error .recordNotFound => createRequest fails req
  | .error e => throw (.dataQueryFail e)

def addFriend (req : AddFriendReq) : FriendM Unit :=
  if req.uuid = "" ∨ req.revId = "" then throw .invalidParam
  else if req.uuid = req.revId then throw .invalidParam
  else do
    match ← take fails (·.friends) fun f => f.Joins req.uuid req.revId with
    | .ok _ => throw .friendAlreadyExist
    | .error .recordNotFound => requestOnce fails req
    | .error e => throw (.dataQueryFail e)

structure ValidFriendReq where
  uuid : String
  verifyId : Nat
  status : UInt32
  deriving DecidableEq, Repr

def nickName (uuid : String) : FriendM String := do
  match ← take fails (·.users) fun u => !u.deleted && u.uuid = uuid with
  | .ok u => return u.nickName
  | .error .recordNotFound => return ""
  | .error e => throw (.dataQueryFail e)

def newFriend (v : FriendVerify) (senderNick receiverNick : String) : Friend :=
  ⟨0,v.sendUUID,v.revUUID,receiverNick,senderNick,v.source⟩

def insertFriend (v : FriendVerify) : FriendM Unit := do
  let senderNick ← nickName fails v.sendUUID
  let receiverNick ← nickName fails v.revUUID
  match ← createFriend fails (newFriend v senderNick receiverNick) with
  | .error e => throw (.dataCreateFail e)
  | .ok _ => return ()

def insertFriendOnce (v : FriendVerify) : FriendM Unit := do
  match ← take fails (·.friends) fun f => f.Goes v.sendUUID v.revUUID with
  | .ok _ => return ()
  | .error .recordNotFound => insertFriend fails v
  | .error e => throw (.dataQueryFail e)

def recordDecision (v : FriendVerify) (status : Int8) : FriendM Unit := do
  match ← updateRevStatus fails v.id status with
  | .error e => throw (.dataModifyFail e)
  | .ok _ => return ()

def validFriend (req : ValidFriendReq) : FriendM Unit :=
  if req.uuid = "" ∨ req.verifyId = 0 then throw .invalidParam
  else do
    match ← take fails (·.verifies) fun v => v.id = req.verifyId with
    | .error e => throw (.dataQueryFail e)
    | .ok v =>
      if v.revUUID ≠ req.uuid then throw .invalidParam
      else if req.status = 1 then
        transaction fails (.transaction .failed) do
          insertFriendOnce fails v
          recordDecision fails v 2
      else if req.status = 2 then recordDecision fails v 3
      else throw .invalidParam

structure FriendInfo where
  uuid : String
  notice : String
  deriving DecidableEq, Repr

def Friend.infoFor (uuid : String) (f : Friend) : FriendInfo :=
  if f.sendUUID = uuid then ⟨f.revUUID,f.sendNotice⟩ else ⟨f.sendUUID,f.revNotice⟩

def getFriendList (uuid : String) : FriendM (List FriendInfo) :=
  if uuid = "" then throw .invalidParam
  else do
    match ← findFriends fails fun f => f.sendUUID = uuid ∨ f.revUUID = uuid with
    | .error e => throw (.dataQueryFail e)
    | .ok list => return list.map (Friend.infoFor uuid)

end Calls

inductive FriendCall where
  | addFriend (req : AddFriendReq)
  | validFriend (req : ValidFriendReq)
  deriving DecidableEq, Repr

def FriendCall.main (fails : Nat → Bool) : FriendCall → FriendM Unit
  | .addFriend req => Friends.addFriend fails req
  | .validFriend req => Friends.validFriend fails req

def FriendCall.apply (fails : Nat → Bool) (s : FriendServer) (call : FriendCall) : FriendServer :=
  final (call.main fails) s

/-- Whom `GetFriendList` lists, when the database answers. -/
def listed (s : FriendServer) (uuid : String) : List String :=
  match getFriendList (fun _ => false) uuid s with
  | .ok infos _ => infos.map (·.uuid)
  | .error _ _ => []

end Imy.Friends
