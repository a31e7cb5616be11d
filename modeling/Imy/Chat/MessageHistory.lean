import Imy.Chat.Writes
set_option autoImplicit false

namespace Imy.Chat
open Imy.Lib

/-- A message after some time: a revoked one stays revoked. -/
def Lasting (m m' : ChatMessage) : Prop :=
  StillMessage m m' ∧ (m.isRevoked = true → m'.isRevoked = true)

theorem Lasting.refl (m : ChatMessage) : Lasting m m := ⟨StillMessage.refl m,fun h => h⟩

theorem Lasting.trans (m₁ m₂ m₃ : ChatMessage) (h : Lasting m₁ m₂) (h' : Lasting m₂ m₃) :
    Lasting m₁ m₃ :=
  ⟨StillMessage.trans _ _ _ h.1 h'.1,fun hrev => h'.2 (h.2 hrev)⟩

section Statements
variable {out : Outer} {parse : String → Option Int} {db : Database} {req : Request}
  {h : ChatTrace} {q : Stmt} {m m' : ChatMessage}

theorem messages_onRoster (hq : q.OnRoster) : (exec out q db).2.messages = db.messages := by
  cases q with
  | updateMember row cols => exact hq.elim
  | createMessage row => exact hq.elim
  | updateMessage row cols => exact hq.elim
  | createConversation row =>
    change (db.createConversation row).2.messages = db.messages
    rw [Database.createConversation]
    split <;> rfl
  | createMembers rows => exact (createMembers_frame out db rows).1
  | _ => rfl

theorem Request.May.messages (hmay : req.May parse h q) (out : Outer) (db : Database) :
    (exec out q db).2.messages = db.messages ∨ (∃ row, q = .createMessage row) ∨
      ∃ r msg now, req = .operation (.recallMessage r) ∧ r.Entitled h msg ∧
        q = .updateMessage { msg with isRevoked := true, revokedAt := some now }
          [.isRevoked,.revokedAt] := by
  rcases hmay with hreads | hwrites
  · exact Or.inl (messages_onRoster hreads.onRoster)
  cases req with
  | operation op =>
    cases op with
    | sendMessage r =>
      rcases hwrites with rfl | ⟨row,rfl,-⟩ | ⟨mem,cnt,-,rfl⟩
      · exact Or.inr (Or.inl ⟨_,rfl⟩)
      · exact Or.inl rfl
      · exact Or.inl rfl
    | recallMessage r =>
      obtain ⟨msg,now,hentitled,rfl⟩ := hwrites
      exact Or.inr (Or.inr ⟨r,msg,now,rfl,hentitled,rfl⟩)
    | readMessages r =>
      obtain ⟨mem,cnt,lastReadAt,-,rfl⟩ := hwrites
      exact Or.inl rfl
    | _ => exact Or.inl (messages_onRoster hwrites)
  | updateConversationSettings r =>
    obtain ⟨mem,muteUntil,-,-,rfl⟩ := hwrites
    exact Or.inl rfl
  | _ => exact hwrites.elim

theorem message_eq_of_id (hkeyed : Keyed db) (hm : m ∈ db.messages) (hm' : m' ∈ db.messages)
    (hid : m.id = m'.id) : m = m' :=
  eq_of_increasing hkeyed.messageIDs hm hm' hid

end Statements

section Run
variable {ι : Type} [DecidableEq ι] {out : Outer} {parse : String → Option Int} {db : Database}
  {reqs : ι → Request}

end Run

end Imy.Chat
