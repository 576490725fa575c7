import StageRig.Main
import StageRig.Watch
import StageRig.Proofs.Attachments
import StageRig.Proofs.Relay.Namesakes
import StageRig.Proofs.Relay.Reorder
import StageRig.Proofs.Relay.Unspellable
import StageRig.Proofs.Rig.BuiltIns
import StageRig.Proofs.Rig.Hidden
import StageRig.Proofs.Rig.Verdict
import StageRig.Proofs.Delivery.Contained
import StageRig.Proofs.Delivery.Halted
import StageRig.Proofs.Glsl.LiveEdit
import StageRig.Proofs.Relay.ArrayMembers
import StageRig.Proofs.Relay.Naming
import StageRig.Proofs.Document.Refused
import StageRig.Proofs.Document.Respelled
import StageRig.Proofs.Path.Respelled
import StageRig.Proofs.Reflector
