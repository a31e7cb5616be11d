import Imy.Chat.Operations
set_option autoImplicit false

namespace Imy.Chat
open Imy.Lib

/-- The call adds the user `u` to a conversation `c` that is already there. -/
def Operation.Joins (db : Database) (c : Nat) (u : String) : Operation → Prop
  | .addMembers req =>
    req.uuid ≠ "" ∧ c ≠ 0 ∧ req.conversationId = c ∧ db.IsMember c req.uuid ∧
      u ∈ newUUIDs ((db.live.filter fun m => m.conversationID = c).map (·.userUUID))
        req.memberUUIDs ∧
      (db.members ++ (newUUIDs ((db.live.filter fun m => m.conversationID = c).map (·.userUUID))
        req.memberUUIDs).map (memberRow c)).Pairwise fun m m' => ¬ sameKey m m'
  | .createPrivateConversation req =>
    req.uuid ≠ "" ∧ req.peerUUID ≠ "" ∧ req.uuid ≠ req.peerUUID ∧
      (∃ conv, db.conversations.find? (fun conv =>
        conv.privateKey = privateKeyOf req.uuid req.peerUUID) = some conv ∧ conv.id = c) ∧
      (u = req.uuid ∨ u = req.peerUUID) ∧
      ∀ m ∈ db.members, ¬ (m.conversationID = c ∧ m.userUUID = u)
  | _ => False

/-- The statement changes no unread count, and neither members nor messages. -/
def Stmt.Quiet (q : Stmt) : Prop :=
  q.Neutral ∧ ∀ out db, (exec out q db).2.members = db.members ∧
    (exec out q db).2.messages = db.messages

section Programs
variable {out : Outer} {db : Database}

theorem Settled.call {stale late : String → Nat → Prop} (h : Settled stale late db)
    {main : ChatM Reply}
    (hmain : main.Yields Stmt.Neutral fun reply => reply.2.Yields Stmt.Neutral fun _ => True) :
    wp ((serve main).run (exec out)) (fun _ t => Settled stale late t)
      (fun _ t => Settled stale late t) db := by
  refine wp_serve (wp_mono (hmain.wp_run (exec out) (Settled.neutral out) h) ?_ fun _ _ he => he)
  rintro reply t ⟨ht,hreply⟩
  exact wp_mono (hreply.wp_run (exec out) (Settled.neutral out) ht)
    (fun _ _ hu => hu.1) fun _ _ hu => hu

end Programs

section Calls
variable {out : Outer} {db : Database} {stale late : String → Nat → Prop}

end Calls

section SendMessage
variable {out : Outer} {db : Database} {c : Nat} {members : List ChatConversationMember}

structure Snapshot (members : List ChatConversationMember) (c : Nat) (db : Database) : Prop where
  there : ∀ mem ∈ members, mem.conversationID = c ∧
    ∃ m ∈ db.live, SameMember mem m ∧ m.lastReadMessageID = mem.lastReadMessageID
  all : ∀ m ∈ db.live, m.conversationID = c → ∃ mem ∈ members, SameMember mem m

theorem Snapshot.refresh (h : Snapshot members c db) (row : ChatConversationMember) :
    Snapshot members c (db.updateMember row [.unreadCount]) := by
  have hlive := live_updateMember db row [.unreadCount]
  constructor
  · intro mem hmem
    obtain ⟨hconv,m,hm,hsame,hread⟩ := h.there mem hmem
    refine ⟨hconv,_,?_,hsame.trans (sameMember_update row [.unreadCount] m),?_⟩
    · rw [hlive]
      exact List.mem_map_of_mem hm
    · rw [← hread]
      split <;> rfl
  · intro m' hm' hconv
    rw [hlive] at hm'
    obtain ⟨m,hm,rfl⟩ := List.mem_map.mp hm'
    have hkept := sameMember_update row [.unreadCount] m
    obtain ⟨mem,hmem,hsame⟩ := h.all m hm (hkept.conversationID.symm.trans hconv)
    exact ⟨mem,hmem,hsame.trans hkept⟩

/-- The members of `c` that are not among those done. -/
def waiting (c : Nat) (done : List ChatConversationMember) (v : String) (d : Nat) : Prop :=
  d = c ∧ ¬ ∃ mem ∈ done, mem.userUUID = v

end SendMessage

section ReadMessages
variable {out : Outer} {db : Database} {stale late : String → Nat → Prop}

/-- Quiet statements leave alone what was known of the members and messages. -/
theorem Settled.quiet (out : Outer) (db : Database) (q : Stmt) (t : Database) (hq : q.Quiet)
    (h : Settled stale late t ∧ t.members = db.members ∧ t.messages = db.messages) :
    Settled stale late (exec out q t).2 ∧ (exec out q t).2.members = db.members ∧
      (exec out q t).2.messages = db.messages :=
  ⟨Settled.neutral out q t hq.1 h.1,(hq.2 out t).1.trans h.2.1,(hq.2 out t).2.trans h.2.2⟩

theorem live_congr {t : Database} (h : t.members = db.members) : t.live = db.live := by
  rw [Database.live,h]
  rfl

end ReadMessages

section Membership
variable {out : Outer} {db : Database} {c : Nat}

end Membership

section Runs
variable {out : Outer} {db : Database}

end Runs

end Imy.Chat
