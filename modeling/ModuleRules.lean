import ModuleRules.Main
import ModuleRules.Proofs.Configuration.Content
import ModuleRules.Proofs.Configuration.Discovery
import ModuleRules.Proofs.Configuration.Dump
import ModuleRules.Proofs.Configuration.Grammar
import ModuleRules.Proofs.Configuration.Stop
import ModuleRules.Proofs.Configuration.Warnings
import ModuleRules.Proofs.Configuration.Reference
import ModuleRules.Proofs.Descriptor.Alias
import ModuleRules.Proofs.Descriptor.Revision
import ModuleRules.Proofs.Descriptor.Spelling
import ModuleRules.Proofs.Property.Place
import ModuleRules.Proofs.Report.Settlement
import ModuleRules.Proofs.Rule.Changes
import ModuleRules.Proofs.Rule.History
import ModuleRules.Proofs.Rule.Lasting
import ModuleRules.Proofs.Rule.Repetition
import ModuleRules.Proofs.Configuration.Placeholder
import ModuleRules.Proofs.Configuration.Seam
import ModuleRules.Proofs.Configuration.Section
import ModuleRules.Proofs.Bom.Insertion
import ModuleRules.Proofs.Bom.Placement
import ModuleRules.Proofs.Bom.Recovery
import ModuleRules.Proofs.Property.Override
