import Mathlib.Data.Nat.Order.Lemmas
import Imy.Lib.Reordered
import Imy.Chat.LostSight
set_option autoImplicit false

namespace Imy.Chat
open Imy.Lib

def conversationPage (u : String) (pageSize : Int64) (k : Nat) : GetConversationsReq :=
  ⟨u,pageSize,Int64.ofNat (k+1)⟩

section Fetch
variable (out : Outer) (parse : String → Option Int) (db : Database) (u : String) (pageSize : Int64)

def afterPages (k : Nat) : Database :=
  runRequests out parse db ((List.range k).map fun k =>
    .getConversations (conversationPage u pageSize k))

def pageResult (k : Nat) : Except ErrCode Response :=
  (Request.getConversations (conversationPage u pageSize k)).result out parse
    (afterPages out parse db u pageSize k)

structure Fetched (pages : List (List ConversationInfo)) : Prop where
  index : pages.length+1 < 2^63
  full : ∀ k page, pages[k]? = some page →
    page ≠ [] ∧ pageResult out parse db u pageSize k = .ok (.conversations page)
  last : pageResult out parse db u pageSize pages.length = .ok (.conversations [])

end Fetch

/-- The rows of a user whose last message is later than that of the conversation. -/
def Database.ahead (db : Database) (u : String) (conv : ChatConversation) : Nat :=
  ((db.joined u).filter fun conv' => conv.lastMessageID < conv'.lastMessageID).length

section Offsets
variable {pageSize : Int64} {k : Nat}

end Offsets

section Queries
variable {out : Outer} {parse : String → Option Int} {db : Database} {u : String} {pageSize : Int64}

end Queries

section Places
variable {out : Outer} {db : Database} {u : String} {pageSize : Int64} {conv : ChatConversation}

end Places

section Complete
variable {out : Outer} {parse : String → Option Int} {db : Database} {u : String} {pageSize : Int64}
  {conv : ChatConversation}

end Complete

end Imy.Chat
