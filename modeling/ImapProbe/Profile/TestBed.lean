import ImapProbe.Profile.Roster

/-!
# The test bed

The servers that are visited when no file names others. All run on the local host.
-/

namespace ImapProbe.TestBed

/-- A mailbox under a name that no user has given. -/
def mailbox : String := "kzUXL7HyS5OjLcU8"

def profiles : List Profile :=
  let server id transport port user password mailbox suffix : Profile :=
    { id, transport, host := "localhost", port, user, password, mailbox, suffix }
  [server "dovecot" .tls 993 "test" "pass" mailbox ".dovecot",
    server "maddy" .tls 994 "test@example.com" "pass" mailbox ".maddy",
    server "cyrus" .plain 143 "test" "pass" ("INBOX." ++ mailbox) ".cyrus",
    server "courier" .plain 144 "debian" "debian" mailbox ".courier",
    server "stalwart" .tls 1993 "test@example.com" "pass" mailbox ".stalwart.0.2.0"]

/-- The test bed makes a roster. -/
theorem fault?_profiles : Roster.fault? [] profiles = none := by decide

end ImapProbe.TestBed
