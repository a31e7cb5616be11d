import Imy.Auth.Logic
import Imy.Lib.Statements
set_option autoImplicit false

/-!
The calls of `internal/logic/v2/verify` and `internal/logic/v2/friend`, with the tables
`auth`, `verify` and `friend_v2` of `schema/insert.sql`. Nothing deletes a row of these
tables.
-/

namespace Imy.Friends.V2
open Imy.Lib
open Imy.Auth (DBError)

/-- A row of `auth`. -/
structure Auth where
  id : Nat
  account : String
  nickName : String
  deriving DecidableEq, Repr

/-- The accounts. Their IDs are the primary key, 32-bit numbers from 1 on. -/
structure AuthTable where
  rows : List Auth
  ids : rows.Pairwise fun a b => a.id ≠ b.id
  range : ∀ a ∈ rows, 0 < a.id ∧ a.id < UInt32.size

structure Verify where
  id : Nat
  sendID : Nat
  revID : Nat
  status : UInt8
  deriving DecidableEq, Repr

structure FriendV2 where
  id : Nat
  sendID : Nat
  revID : Nat
  deriving DecidableEq, Repr

inductive VerifyErr where
  | authUserNotFund
  | authTokenUseless
  | friendAlreadyExist
  | verifyExist
  | verifyNotFound
  | dataQueryFail (e : DBError)
  | dataCreateFail (e : DBError)
  | dataModifyFail (e : DBError)
  | panicked
  deriving DecidableEq, Repr

structure VerifyTables where
  auths : AuthTable
  verifies : List Verify
  nextVerify : Nat
  friends : List FriendV2
  nextFriend : Nat
  pushed : List (Nat × Nat × String)

abbrev VerifyServer := Server VerifyTables

abbrev VerifyM := EStateM VerifyErr VerifyServer

def AuthTable.byAccount (t : AuthTable) (account : String) : Option Auth :=
  t.rows.find? fun a => a.account = account

def AuthTable.byID (t : AuthTable) (id : Nat) : Option Auth := t.rows.find? fun a => a.id = id

section Statements
variable (fails : Nat → Bool) {α : Type}

/-- `First`: the row, or that there is none. -/
def first (f : VerifyTables → Option α) : VerifyM (Except DBError α) :=
  statement fails (.error .failed) fun db =>
    (match f db with
      | some row => .ok row
      | none => .error .recordNotFound,db)

/-- The rows, newest first. -/
def find (rows : VerifyTables → List α) (p : α → Bool) : VerifyM (Except DBError (List α)) :=
  statement fails (.error .failed) fun db => (.ok ((rows db).filter p).reverse,db)

def count (rows : VerifyTables → List α) (p : α → Bool) : VerifyM (Except DBError Nat) :=
  statement fails (.error .failed) fun db => (.ok ((rows db).countP p),db)

def findAndCount (rows : VerifyTables → List α) (p : α → Bool) :
    VerifyM (Except DBError (List α × Nat)) := do
  match ← find fails rows p with
  | .error e => return .error e
  | .ok list =>
    match ← count fails rows p with
    | .error e => return .error e
    | .ok total => return .ok (list,total)

def cond (param value : Nat) : Bool := param = 0 ∨ value = param

def listFriends (sendId revId : Nat) : VerifyM (Except DBError (List FriendV2 × Nat)) :=
  findAndCount fails (·.friends) fun f => cond sendId f.sendID && cond revId f.revID

def listVerifies (sendId revId : Nat) : VerifyM (Except DBError (List Verify × Nat)) :=
  findAndCount fails (·.verifies) fun v => cond sendId v.sendID && cond revId v.revID

def createVerify (sendID revID : Nat) : VerifyM (Except DBError Unit) :=
  statement fails (.error .failed) fun db =>
    (.ok (),{ db with
      verifies := db.verifies ++ [⟨db.nextVerify,sendID,revID,1⟩]
      nextVerify := db.nextVerify+1 })

def createFriendV2 (sendID revID : Nat) : VerifyM (Except DBError Unit) :=
  statement fails (.error .failed) fun db =>
    (.ok (),{ db with
      friends := db.friends ++ [⟨db.nextFriend,sendID,revID⟩]
      nextFriend := db.nextFriend+1 })

def Verify.updated (row old : Verify) : Verify :=
  if old.id = row.id then
    { old with
      sendID := if row.sendID = 0 then old.sendID else row.sendID
      revID := if row.revID = 0 then old.revID else row.revID
      status := if row.status = 0 then old.status else row.status }
  else old

def updateVerify (row : Verify) : VerifyM (Except DBError Unit) :=
  statement fails (.error .failed) fun db =>
    (.ok (),{ db with verifies := db.verifies.map row.updated })

def sendToUserFrom (fromUserID toUserID : Nat) (data : String) : VerifyM Unit :=
  modify fun s => { s with tables := { s.tables with
    pushed := s.tables.pushed ++ [(fromUserID,toUserID,data)] } }

end Statements

def uint32 (x : Int) : Nat := (x % UInt32.size).toNat

def totalOf {α : Type} : Except DBError (List α × Nat) → Nat
  | .ok (_,total) => total
  | .error _ => 0

structure DealVerifyReq where
  id : Nat
  status : UInt8
  deriving DecidableEq, Repr

structure FriendV2Info where
  account : String
  nickname : String
  deriving DecidableEq, Repr

section Calls
variable (fails : Nat → Bool)

def sendNew (userId : Nat) (ob : Auth) : VerifyM Unit := do
  match ← createVerify fails userId ob.id with
  | .error e => throw (.dataCreateFail e)
  | .ok _ => sendToUserFrom userId ob.id "收到好友请求"

def sendOnce (userId : Nat) (ob : Auth) : VerifyM Unit := do
  let friends ← listFriends fails userId ob.id
  if totalOf friends ≠ 0 then throw .friendAlreadyExist
  else do
    let verifies ← listVerifies fails userId ob.id
    if totalOf verifies ≠ 0 then throw .verifyExist
    else sendNew fails userId ob

/-- `userId` is the number in the context, as `Int64` reads it. -/
def sendVerify (userId : Option Int) (account : String) : VerifyM Unit := do
  match ← first fails (·.auths.byAccount account) with
  | .error .recordNotFound => throw .authUserNotFund
  | .error e => throw (.dataQueryFail e)
  | .ok ob =>
    match userId with
    | none => throw .authTokenUseless
    | some userId64 => sendOnce fails (uint32 userId64) ob

def dealRecord (v : Verify) (status : UInt8) : VerifyM Unit := do
  match ← updateVerify fails { v with status := status } with
  | .error e => throw (.dataModifyFail e)
  | .ok _ =>
    sendToUserFrom v.sendID v.revID "对方已经同意了你的验证"
    match ← createFriendV2 fails v.sendID v.revID with
    | .error e => throw (.dataCreateFail e)
    | .ok _ => return ()

def dealVerify (req : DealVerifyReq) : VerifyM Unit := do
  match ← first fails fun db => db.verifies.find? fun v => v.id = req.id with
  | .error .recordNotFound => throw .verifyNotFound
  | .error e => throw (.dataQueryFail e)
  | .ok v => dealRecord fails v req.status

def infosOf : List FriendV2 → VerifyM (List FriendV2Info)
  | [] => return []
  | item :: list => do
    match ← first fails (·.auths.byID item.revID) with
    | .error _ => throw .panicked
    | .ok a => return ⟨a.account,a.nickName⟩ :: (← infosOf list)

def allFriend (userId : Option Int) : VerifyM (List FriendV2Info) :=
  match userId with
  | none => throw .authTokenUseless
  | some userId64 => do
    match ← listFriends fails (uint32 userId64) 0 with
    | .error _ => return []
    | .ok (list,_) => infosOf fails list

end Calls

inductive VerifyCall where
  | sendVerify (userId : Option Int) (account : String)
  | dealVerify (req : DealVerifyReq)
  deriving DecidableEq, Repr

def VerifyCall.main (fails : Nat → Bool) : VerifyCall → VerifyM Unit
  | .sendVerify userId account => V2.sendVerify fails userId account
  | .dealVerify req => V2.dealVerify fails req

def runVerifies (s : VerifyServer) (calls : List VerifyCall) : VerifyServer :=
  calls.foldl (fun s call => final (call.main fun _ => false) s) s

def allFriendOf (s : VerifyServer) (u : Auth) : List String :=
  match allFriend (fun _ => false) (some u.id) s with
  | .ok infos _ => infos.map (·.account)
  | .error _ _ => []

end Imy.Friends.V2
