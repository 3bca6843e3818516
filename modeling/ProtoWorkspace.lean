import ProtoWorkspace.Main
import ProtoWorkspace.Proofs.Caching.ResultCache
import ProtoWorkspace.Proofs.Digest.Spelling
import ProtoWorkspace.Proofs.FullName.Tables
import ProtoWorkspace.Proofs.Imports.Header
import ProtoWorkspace.Proofs.Imports.Literals
import ProtoWorkspace.Proofs.LockFile.Keys
import ProtoWorkspace.Proofs.Path.Canonical
import ProtoWorkspace.Proofs.Program.Digests
import ProtoWorkspace.Proofs.Program.Places
import ProtoWorkspace.Proofs.Session.Internal
import ProtoWorkspace.Proofs.Session.Reordered
import ProtoWorkspace.Proofs.Session.Stored
import ProtoWorkspace.Proofs.Session.Unimported
import ProtoWorkspace.Proofs.Session.Views
