import ImapProbe.Artifact
import ImapProbe.Base64
import ImapProbe.Bytes
import ImapProbe.Client.Basic
import ImapProbe.Client.Connection
import ImapProbe.Client.Network
import ImapProbe.Command.Basic
import ImapProbe.Command.Form
import ImapProbe.Command.Item
import ImapProbe.Command.SequenceSet
import ImapProbe.CommandLine.Arguments
import ImapProbe.CommandLine.Program
import ImapProbe.CommandLine.Request
import ImapProbe.Corpus.Basic
import ImapProbe.Corpus.Preparation
import ImapProbe.Fault
import ImapProbe.Main
import ImapProbe.Mbox.Basic
import ImapProbe.Mbox.Import
import ImapProbe.Network.Bundle
import ImapProbe.Network.Certificate
import ImapProbe.Network.Element
import ImapProbe.Network.ServerName
import ImapProbe.Network.Switchboard
import ImapProbe.Profile.Basic
import ImapProbe.Profile.File
import ImapProbe.Profile.Roster
import ImapProbe.Profile.TestBed
import ImapProbe.Proofs.Announcement
import ImapProbe.Proofs.Argument
import ImapProbe.Proofs.Asking
import ImapProbe.Proofs.Client.Answers
import ImapProbe.Proofs.Client.Conduct
import ImapProbe.Proofs.Client.Fetching
import ImapProbe.Proofs.Client.Future
import ImapProbe.Proofs.Client.Hearing
import ImapProbe.Proofs.Client.Interjection
import ImapProbe.Proofs.Client.Journal
import ImapProbe.Proofs.Client.Resumption
import ImapProbe.Proofs.Client.Sending
import ImapProbe.Proofs.Client.Tags
import ImapProbe.Proofs.Client.Turns
import ImapProbe.Proofs.Completion
import ImapProbe.Proofs.Conservation
import ImapProbe.Proofs.Corpus.Artifacts
import ImapProbe.Proofs.Corpus.Conversion
import ImapProbe.Proofs.Corpus.Extraction
import ImapProbe.Proofs.Corpus.Listing
import ImapProbe.Proofs.Corpus.Mail
import ImapProbe.Proofs.Data
import ImapProbe.Proofs.DataName
import ImapProbe.Proofs.Episode
import ImapProbe.Proofs.Folding
import ImapProbe.Proofs.Forms
import ImapProbe.Proofs.Framing
import ImapProbe.Proofs.Items
import ImapProbe.Proofs.Lines
import ImapProbe.Proofs.Mbox.Importing
import ImapProbe.Proofs.Mbox.Parting
import ImapProbe.Proofs.Numbering
import ImapProbe.Proofs.Presentation
import ImapProbe.Proofs.Preservation
import ImapProbe.Proofs.Reading
import ImapProbe.Proofs.Refusal
import ImapProbe.Proofs.Request
import ImapProbe.Proofs.Restoration
import ImapProbe.Proofs.Roster
import ImapProbe.Proofs.Schedule
import ImapProbe.Proofs.Session.Addition
import ImapProbe.Proofs.Session.Calls
import ImapProbe.Proofs.Session.Conversation
import ImapProbe.Proofs.Session.Course
import ImapProbe.Proofs.Session.Determinacy
import ImapProbe.Proofs.Session.Independence
import ImapProbe.Proofs.Session.Interjection
import ImapProbe.Proofs.Session.Outcome
import ImapProbe.Proofs.Session.Recording
import ImapProbe.Proofs.Session.Repetition
import ImapProbe.Proofs.Session.Steps
import ImapProbe.Proofs.Session.Tally
import ImapProbe.Proofs.Session.Unwritable
import ImapProbe.Proofs.Sharing
import ImapProbe.Proofs.Storage.Directory
import ImapProbe.Proofs.Storage.Entries
import ImapProbe.Proofs.Storage.Following
import ImapProbe.Proofs.Storage.Naming
import ImapProbe.Proofs.Storage.Reach
import ImapProbe.Proofs.Storage.Rewriting
import ImapProbe.Proofs.Storage.Strewn
import ImapProbe.Proofs.Storage.Writing
import ImapProbe.Proofs.Survey
import ImapProbe.Proofs.Utf8
import ImapProbe.Proofs.Utterance
import ImapProbe.Proofs.Words
import ImapProbe.Response
import ImapProbe.Session.Basic
import ImapProbe.Session.Examination
import ImapProbe.Session.Losses
import ImapProbe.Session.Responder
import ImapProbe.Session.Visit
import ImapProbe.Storage.FileTree
import ImapProbe.Storage.Path
import ImapProbe.Text.Blank
import ImapProbe.Text.Duration
import ImapProbe.Text.Printable
import ImapProbe.Text.Quoted
import ImapProbe.Text.Split
import ImapProbe.Text.Utf8
import ImapProbe.Toml.Document
import ImapProbe.Toml.Number
import ImapProbe.Toml.Token
import ImapProbe.Toml.Value
import ImapProbe.Wire.Cutter
import ImapProbe.Wire.Fragment
import ImapProbe.Wire.Message
import ImapProbe.Wire.Reading
import ImapProbe.Wire.StatusLine
